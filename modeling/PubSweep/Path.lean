/-!
File paths, compared by components.

The text of a path is kept as it was given.  Two paths are the same if their components are: empty
pieces and dots inside a path do not count.
-/

namespace PubSweep

/-- A path as it was written. -/
structure Path where
  text : String
deriving Repr, DecidableEq, Inhabited

/-- One step of a path. -/
inductive Component where
  | root
  | current
  | parent
  | name (text : String)
deriving Repr, DecidableEq, Inhabited

namespace Component

/-- The kinds of components in their order. -/
def rank : Component → Nat
  | root => 0
  | current => 1
  | parent => 2
  | name _ => 3

/-- The text of a name; nothing for the other components. -/
def text : Component → String
  | name s => s
  | _ => ""

/-- Components are ordered by kind, names by their text. -/
def compare (a b : Component) : Ordering :=
  (Ord.compare a.rank b.rank).then (Ord.compare a.text b.text)

/-- Two lists of components are compared one by one; a list comes before its continuations. -/
def compareAll : List Component → List Component → Ordering
  | [], [] => .eq
  | [], _ :: _ => .lt
  | _ :: _, [] => .gt
  | a :: as, b :: bs => (a.compare b).then (compareAll as bs)

/-- The component of a piece that is neither empty nor a dot. -/
def ofPiece (piece : String) : Component := if piece = ".." then parent else name piece

end Component

namespace Path

/-- The pieces of some characters between slashes. -/
def splitSlashes : List Char → List (List Char)
  | [] => [[]]
  | c :: cs =>
    if c = '/' then [] :: splitSlashes cs
    else
      match splitSlashes cs with
      | [] => [[c]]
      | piece :: pieces => (c :: piece) :: pieces

/-- What a path starts with. -/
inductive Start where
  | rooted
  | dotted
  | plain
deriving DecidableEq

/-- A path taken apart: its start, and the pieces behind. -/
structure Parts where
  start : Start
  body : List String

/-- Whether a piece does not count as a component. -/
def isBlank (piece : String) : Bool := piece = "" || piece = "."

/-- The parts of a path. -/
def parts (p : Path) : Parts :=
  match (splitSlashes p.text.toList).map String.ofList with
  | "" :: second :: rest => ⟨.rooted, second :: rest⟩
  | "." :: rest => ⟨.dotted, rest⟩
  | pieces => ⟨.plain, pieces⟩

/-- The components that a start counts for. -/
def Start.components : Start → List Component
  | .rooted => [.root]
  | .dotted => [.current]
  | .plain => []

/-- The components of the pieces behind the start. -/
def bodyComponents (body : List String) : List Component :=
  (body.filter (!isBlank ·)).map Component.ofPiece

/-- The components of a path. -/
def components (p : Path) : List Component :=
  p.parts.start.components ++ bodyComponents p.parts.body

/-- Paths are ordered by their components. -/
def compare (p q : Path) : Ordering := Component.compareAll p.components q.components

/-- Whether two paths have the same components. -/
def same (p q : Path) : Bool := p.components == q.components

/-- Whether a path is below another, or the same. -/
def startsWith (p base : Path) : Bool := base.components.isPrefixOf p.components

/-- Leaves out the pieces at the end that do not count. -/
def trimRight (body : List String) : List String := (body.reverse.dropWhile isBlank).reverse

/-- The path of a start and some pieces. -/
def ofParts (start : Start) (body : List String) : Path :=
  let rest := "/".intercalate body
  match start with
  | .rooted => ⟨"/" ++ rest⟩
  | .dotted => ⟨if body.isEmpty then "." else "./" ++ rest⟩
  | .plain => ⟨rest⟩

/-- Leaves out some components in front. -/
def dropPieces : (count : Nat) → List String → List String
  | 0, body => body.dropWhile isBlank
  | _ + 1, [] => []
  | count + 1, piece :: body =>
    if isBlank piece then dropPieces (count + 1) body else dropPieces count body

/-- A path relative to another that it is below. -/
def relativeTo (p base : Path) : Option Path :=
  if p.startsWith base then
    let count := base.components.length
    let start := p.parts.start
    if count = 0 then some (ofParts start (trimRight p.parts.body))
    else
      let taken := start.components.length
      some (ofParts .plain (trimRight (dropPieces (count - taken) p.parts.body)))
  else none

/-- Whether a path starts at the root. -/
def isAbsolute (p : Path) : Bool := p.text.toList.head? == some '/'

/-- A path below another; an absolute path stays as it is. -/
def join (base p : Path) : Path :=
  if p.isAbsolute || base.text = "" then p
  else if base.text.toList.getLast? == some '/' then ⟨base.text ++ p.text⟩
  else ⟨base.text ++ "/" ++ p.text⟩

/-- The path without its last component; none for the root and the empty path. -/
def parent (p : Path) : Option Path :=
  let start := p.parts.start
  match trimRight p.parts.body with
  | [] => if start = .dotted then some ⟨""⟩ else none
  | body => some (ofParts start (trimRight body.dropLast))

/-- The last component, if it is a name. -/
def fileName (p : Path) : Option String :=
  match p.components.getLast? with
  | some (.name s) => some s
  | _ => none

/-- The part of a name behind its last dot; a dot in front does not count. -/
def extension (p : Path) : Option String :=
  match p.fileName with
  | none => none
  | some name =>
    let cs := name.toList.reverse
    let ext := cs.takeWhile (· ≠ '.')
    if ext.length + 1 < cs.length then some (String.ofList ext.reverse) else none

/-- The path with slashes in place of backslashes. -/
def toSlashes (p : Path) : Path :=
  ⟨String.ofList (p.text.toList.map fun c => if c = '\\' then '/' else c)⟩

end Path

end PubSweep
