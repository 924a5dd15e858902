import PubSweep.Document
import PubSweep.Files.Tree
import PubSweep.Glob
import PubSweep.Toml.Parse

/-!
Finds the projects of a directory tree.

Each directory with a manifest is the root of a project, and a source file belongs to the nearest
such directory above it.  A file with no manifest above it belongs to a project of the whole tree.
-/

namespace PubSweep.Files

open Syntax

/-- The name of a manifest. -/
def manifestName : String := "Cargo.toml"

/-- Why no projects can be loaded. -/
inductive LoadError where
  /-- A pattern of files to leave out is none. -/
  | badPattern (pattern : String)
  /-- The directory cannot be walked. -/
  | walk (root : Path)
deriving Repr, DecidableEq

/-- The words for an error. -/
def LoadError.message : LoadError → String
  | .badPattern p => "invalid exclude glob `" ++ p ++ "`"
  | .walk root => "walk " ++ root.text

/-- Whether a directory below the root is left out: build results, and names that start with a
dot. -/
def isSkipped (name : FileName) : Bool := name = encode "target" || name.head? = some 46

mutual
/-- The files of a tree, without the directories that are left out; `above` is the location of the
tree. -/
def visitedBelow (above : Location) : Entry → List (Location × List UInt8)
  | .file contents => [(above, contents)]
  | .directory entries => visitedAmong above entries
  | .link _ => []

/-- The files below some entries of a directory. -/
def visitedAmong (above : Location) : List (FileName × Entry) → List (Location × List UInt8)
  | [] => []
  | (name, e) :: rest =>
    (if e.isDirectory && isSkipped name then [] else visitedBelow (above ++ [name]) e) ++
      visitedAmong above rest
end

/-- A file with its names below the root. -/
structure Visited where
  names : List String
  contents : List UInt8
deriving Inhabited

/-- The files of a tree whose names are texts. -/
def visitedFiles (root : Entry) : List Visited :=
  (visitedBelow [] root).filterMap fun (location, contents) =>
    (location.mapM decode?).map fun names => ⟨names, contents⟩

namespace Visited

/-- The path below the root. -/
def path (v : Visited) : Path := ⟨"/".intercalate v.names⟩

/-- Whether a file is a manifest. -/
def isManifest (v : Visited) : Bool := v.names.getLast? = some manifestName

/-- Whether a file is a source file that no pattern leaves out. -/
def isSource (exclude : List Glob.Pattern) (v : Visited) : Bool :=
  !v.isManifest && v.path.extension = some "rs" &&
    !exclude.any (·.matches v.path.toSlashes.text)

end Visited

/-- The directory, among some, that is nearest above a file. -/
def nearest (directories : List (List String)) (names : List String) : List String :=
  (directories.filter (·.isPrefixOf names)).foldl
    (fun best d => if best.length ≤ d.length then d else best) []

/-- The name of the project of a directory: from its manifest, or else from its path. -/
def projectName (fs : FileSystem) (directory : Path) : String :=
  let fromManifest : Option String := do
    let contents ← fs.read? (directory.join ⟨manifestName⟩)
    let manifest ← Toml.parse? (← decode? contents)
    (← (← manifest.lookup "package").member? "name").asString?
  fromManifest.getD (directory.fileName.getD directory.text)

/-- The directories, each once, in the order of their names. -/
def distinctOwners (owners : List (List String)) : List (List String) :=
  owners.foldr (fun d ds => if ds.contains d then ds else d :: ds) []

/-- The project of a directory and its source files.  A file that is no text is left out. -/
def projectOf (parser : Parser) (fs : FileSystem) (root : Path) (owner : List String)
    (sources : List Visited) : Project :=
  let directory := if owner.isEmpty then root else root.join ⟨"/".intercalate owner⟩
  let name := projectName fs directory
  Project.ofDocuments name directory <| sources.filterMap fun v =>
    (decode? v.contents).map fun text =>
      Document.parse parser name ⟨"/".intercalate (v.names.drop owner.length)⟩ text

/-- The projects of a tree of visited files, in the order of their roots. -/
def projectsOf (parser : Parser) (fs : FileSystem) (root : Path) (exclude : List Glob.Pattern)
    (visited : List Visited) : List Project :=
  let directories := (visited.filter (·.isManifest)).map (·.names.dropLast)
  let sources := visited.filter (·.isSource exclude)
  let ownerOf (v : Visited) : List String := nearest directories v.names
  let projects := (distinctOwners (sources.map ownerOf)).map fun owner =>
    projectOf parser fs root owner (sources.filter (ownerOf · = owner))
  projects.mergeSort fun a b => (a.root.compare b.root).isLE

/-- Reads patterns of files to leave out. -/
def patterns? : List String → Except LoadError (List Glob.Pattern)
  | [] => .ok []
  | p :: ps =>
    match Glob.parse? p with
    | none => .error (.badPattern p)
    | some pattern => (patterns? ps).map (pattern :: ·)

/-- The projects below a root. -/
def loadProjects (parser : Parser) (fs : FileSystem) (root : Path) (exclude : List String) :
    Except LoadError (List Project) := do
  let exclude ← patterns? exclude
  match fs.entry? root with
  | none => .error (.walk root)
  | some (.directory entries) =>
    .ok (projectsOf parser fs root exclude (visitedFiles (.directory entries)))
  | some _ => .ok []

end PubSweep.Files
