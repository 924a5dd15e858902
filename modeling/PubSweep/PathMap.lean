import PubSweep.Path

/-!
Values by path, in the order of the paths.
-/

namespace PubSweep

/-- Values by path; paths with the same components are one. -/
structure PathMap (α : Type) where
  entries : List (Path × α) := []
deriving Inhabited

namespace PathMap

variable {α : Type}

/-- Puts a value at its place; the path of a value that is replaced stays as it was written. -/
def insertIn (path : Path) (value : α) : List (Path × α) → List (Path × α)
  | [] => [(path, value)]
  | (p, v) :: rest =>
    match path.compare p with
    | .lt => (path, value) :: (p, v) :: rest
    | .eq => (p, value) :: rest
    | .gt => (p, v) :: insertIn path value rest

/-- The map with a value put in. -/
def insert (m : PathMap α) (path : Path) (value : α) : PathMap α :=
  ⟨insertIn path value m.entries⟩

/-- The map of some values; a later value replaces an earlier one. -/
def ofList (entries : List (Path × α)) : PathMap α :=
  entries.foldl (fun m (p, v) => m.insert p v) {}

/-- The value at a path. -/
def get? (m : PathMap α) (path : Path) : Option α :=
  (m.entries.find? fun (p, _) => path.compare p == .eq).map (·.2)

end PathMap

end PubSweep
