import PubSweep.Path
import PubSweep.Text.Bytes

/-!
Directory trees: files, directories and links, and how paths lead through them.

Paths and names can have any length.
-/

namespace PubSweep.Files

/-- The name of a file: any bytes. -/
abbrev FileName := List UInt8

/-- A place in a tree: the names on the way to it from the top. -/
abbrev Location := List FileName

/-- What a name in a directory stands for. -/
inductive Entry where
  | file (contents : List UInt8)
  | directory (entries : List (FileName × Entry))
  /-- Another path; a relative one starts in the directory of the link. -/
  | link (target : List UInt8)
deriving Inhabited

/-- Why a path cannot be used. -/
inductive FileError where
  | notFound
  | notDirectory
  | isDirectory
  | alreadyThere
  | tooManyLinks
deriving Repr, DecidableEq

/-- The text of some bytes, if they are UTF-8. -/
def decode? (bytes : List UInt8) : Option String := String.fromUTF8? ⟨bytes.toArray⟩

/-- The bytes of a text. -/
def encode (text : String) : List UInt8 := Text.bytesOf text.toList

namespace Entry

/-- Whether an entry is a directory. -/
def isDirectory : Entry → Bool
  | directory _ => true
  | _ => false

/-- The entry at a location; links are not followed. -/
def get? : Location → Entry → Option Entry
  | [], e => some e
  | name :: rest, directory entries => (entries.lookup name).bind (get? rest)
  | _ :: _, _ => none

/-- Puts an entry in the place of the one of the same name, or at the end. -/
def put (name : FileName) (e : Entry) : List (FileName × Entry) → List (FileName × Entry)
  | [] => [(name, e)]
  | (n, old) :: rest => if n = name then (n, e) :: rest else (n, old) :: put name e rest

/-- The tree with an entry at a location, whose directory must be there. -/
def set : Entry → Location → (new : Entry) → Entry
  | _, [], new => new
  | directory entries, name :: rest, new =>
    match rest, entries.lookup name with
    | [], _ => directory (put name new entries)
    | _, some e => directory (put name (set e rest new) entries)
    | _, none => directory entries
  | e, _ :: _, _ => e

/-- The tree with an entry at a location, and with directories above it where there are none. -/
def plant : Entry → Location → (new : Entry) → Entry
  | _, [], new => new
  | directory entries, name :: rest, new =>
    directory (put name (plant ((entries.lookup name).getD (directory [])) rest new) entries)
  | _, name :: rest, new => directory [(name, plant (directory []) rest new)]

mutual
/-- All files of a tree, with their locations; `above` is the location of the tree. -/
def filesBelow (above : Location) : Entry → List (Location × List UInt8)
  | file contents => [(above, contents)]
  | directory entries => filesAmong above entries
  | link _ => []

/-- All files below some entries of a directory. -/
def filesAmong (above : Location) : List (FileName × Entry) → List (Location × List UInt8)
  | [] => []
  | (name, e) :: rest => filesBelow (above ++ [name]) e ++ filesAmong above rest
end

end Entry

/-- A tree and the directory in which relative paths start. -/
structure FileSystem where
  top : Entry
  cwd : Location := []
deriving Inhabited

/-- The slash between names. -/
def slash : UInt8 := 47

/-- The pieces of some bytes between slashes. -/
def pieces : List UInt8 → List FileName
  | [] => [[]]
  | b :: bs =>
    if b = slash then [] :: pieces bs
    else
      match pieces bs with
      | [] => [[b]]
      | p :: ps => (b :: p) :: ps

/-- The name of a directory in itself. -/
def dot : FileName := [46]

/-- The name of the directory above. -/
def dotDot : FileName := [46, 46]

/-- What a step, or a row of steps, leads to. -/
inductive Arrival (α : Type) where
  | here (found : α)
  /-- A link: where its target starts, and the steps that are left to take from there. -/
  | link (start : Location) (steps : List FileName)

/-- Takes one step from a directory.  There is nothing above the top. -/
def step (top : Entry) (location : Location) (name : FileName) :
    Except FileError (Arrival Location) :=
  match top.get? location with
  | some (.directory entries) =>
    if name.isEmpty || name = dot then .ok (.here location)
    else if name = dotDot then .ok (.here location.dropLast)
    else
      match entries.lookup name with
      | none => .error .notFound
      | some (.link target) =>
        .ok (.link (if target.head? = some slash then [] else location) (pieces target))
      | some _ => .ok (.here (location ++ [name]))
  | some _ => .error .notDirectory
  | none => .error .notFound

/-- Takes steps up to the first link on the way. -/
def advance (top : Entry) : Location → List FileName → Except FileError (Arrival Location)
  | location, [] => .ok (.here location)
  | location, name :: rest =>
    match step top location name with
    | .error e => .error e
    | .ok (.here next) => advance top next rest
    | .ok (.link start target) => .ok (.link start (target ++ rest))

/-- Takes steps up to the first link on the way, where the last name need not be there yet. -/
def advanceToName (top : Entry) :
    Location → List FileName → Except FileError (Arrival (Location × FileName))
  | _, [] => .error .isDirectory
  | location, [name] =>
    if name.isEmpty || name = dot || name = dotDot then .error .isDirectory
    else
      match step top location name with
      | .ok (.link start target) => .ok (.link start target)
      | .ok (.here _) | .error .notFound =>
        if (top.get? location).any Entry.isDirectory then .ok (.here (location, name))
        else .error .notFound
      | .error e => .error e
  | location, name :: next :: rest =>
    match step top location name with
    | .error e => .error e
    | .ok (.here there) => advanceToName top there (next :: rest)
    | .ok (.link start target) => .ok (.link start (target ++ next :: rest))

/-- Goes on behind links; there is a limit to how many of them. -/
def follow {α : Type} (advance : Location → List FileName → Except FileError (Arrival α))
    (links : Nat) (location : Location) (steps : List FileName) : Except FileError α :=
  match advance location steps with
  | .error e => .error e
  | .ok (.here found) => .ok found
  | .ok (.link start rest) =>
    match links with
    | 0 => .error .tooManyLinks
    | links + 1 => follow advance links start rest
termination_by structural links

/-- The location at the end of a path; links are followed. -/
def walk (top : Entry) (links : Nat) (location : Location) (steps : List FileName) :
    Except FileError Location :=
  follow (advance top) links location steps

/-- The directory and the name at the end of a path that need not be there yet; links are
followed. -/
def walkToName (top : Entry) (links : Nat) (location : Location) (steps : List FileName) :
    Except FileError (Location × FileName) :=
  follow (advanceToName top) links location steps

namespace FileSystem

variable (fs : FileSystem)

/-- A path with more links on its way than this leads nowhere, as on Linux. -/
def linkLimit : Nat := 40

/-- The steps of a path. -/
def stepsOf (path : Path) : List FileName := pieces (encode path.text)

/-- Where a path starts: at the top, or in the working directory. -/
def startOf (path : Path) : Location := if path.isAbsolute then [] else fs.cwd

/-- The location of a path; links are followed. -/
def locate (path : Path) : Except FileError Location :=
  if path.text = "" then .error .notFound
  else walk fs.top linkLimit (fs.startOf path) (stepsOf path)

/-- The entry at a path; links are followed. -/
def entry? (path : Path) : Option Entry :=
  match fs.locate path with
  | .ok location => fs.top.get? location
  | .error _ => none

/-- Whether there is a directory at a path. -/
def isDirectory (path : Path) : Bool := (fs.entry? path).any Entry.isDirectory

/-- The bytes of the file at a path. -/
def read? (path : Path) : Option (List UInt8) :=
  match fs.entry? path with
  | some (.file contents) => some contents
  | _ => none

/-- Makes a directory in a directory that is there. -/
def makeDirectory (path : Path) : Except FileError FileSystem :=
  let steps := ((stepsOf path).reverse.dropWhile fun n => n.isEmpty || n = dot).reverse
  if path.text = "" then .error .notFound
  else
    match steps.getLast? with
    | none => .error .alreadyThere
    | some name =>
      match walk fs.top linkLimit (fs.startOf path) steps.dropLast with
      | .error e => .error e
      | .ok location =>
        match step fs.top location name with
        | .ok _ => .error .alreadyThere
        | .error .notFound =>
          if name = dotDot then .error .notFound
          else .ok { fs with top := fs.top.set (location ++ [name]) (.directory []) }
        | .error e => .error e

/-- Makes a directory, and the directories above it that are not there. -/
def makeDirectories : (fuel : Nat) → Path → FileSystem → Except FileError FileSystem
  | 0, _, _ => .error .notFound
  | fuel + 1, path, fs =>
    if path.text = "" then .ok fs
    else
      match fs.makeDirectory path with
      | .ok fs => .ok fs
      | .error .notFound =>
        match path.parent with
        | none => .error .notFound
        | some above =>
          match makeDirectories fuel above fs with
          | .error e => .error e
          | .ok fs =>
            match fs.makeDirectory path with
            | .ok fs => .ok fs
            | .error e => if fs.isDirectory path then .ok fs else .error e
      | .error e => if fs.isDirectory path then .ok fs else .error e

/-- Makes a directory and all above it. -/
def createDirectory (path : Path) : Except FileError FileSystem :=
  makeDirectories (path.text.length + 1) path fs

/-- Writes a file into a directory that is there. -/
def writeFile (path : Path) (contents : List UInt8) : Except FileError FileSystem :=
  if path.text = "" then .error .notFound
  else
    match walkToName fs.top linkLimit (fs.startOf path) (stepsOf path) with
    | .error e => .error e
    | .ok (location, name) =>
      match fs.top.get? (location ++ [name]) with
      | some (.directory _) => .error .isDirectory
      | _ => .ok { fs with top := fs.top.set (location ++ [name]) (.file contents) }

/-- All files of the tree. -/
def files : List (Location × List UInt8) := fs.top.filesBelow []

/-- The files that are not in an earlier tree, or have other contents there. -/
def changedSince (before : FileSystem) : List (Location × List UInt8) :=
  fs.files.filter fun (location, contents) =>
    match before.top.get? location with
    | some (.file old) => old != contents
    | _ => true

end FileSystem

/-- The text of a location; none if a name is no text. -/
def locationText? (location : Location) : Option String :=
  (location.mapM decode?).map ("/".intercalate ·)

end PubSweep.Files
