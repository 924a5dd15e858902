import PubSweep.Files.Tree
import PubSweep.Output

/-!
Writing into a directory tree.
-/

namespace PubSweep.Files

/-- Why a call failed. -/
inductive WriteError where
  | createParent (path : Path)
  | write (path : Path)
  | createDirectory (path : Path)
deriving Repr, DecidableEq

/-- The words for an error. -/
def WriteError.message : WriteError → String
  | .createParent path => "create parent dir for " ++ path.text
  | .write path => "write " ++ path.text
  | .createDirectory path => "create_dir_all " ++ path.text

/-- Makes a call; the directories above a file are made as well, and stay where the file itself
cannot be written. -/
def attempt (fs : FileSystem) : WriteCall → FileSystem × Option WriteError
  | .makeDirectory path =>
    match fs.createDirectory path with
    | .ok fs => (fs, none)
    | .error _ => (fs, some (.createDirectory path))
  | .writeFile path contents =>
    let prepared :=
      match path.parent with
      | some parent => fs.createDirectory parent
      | none => .ok fs
    match prepared with
    | .error _ => (fs, some (.createParent path))
    | .ok fs =>
      match fs.writeFile path (encode contents) with
      | .ok fs => (fs, none)
      | .error _ => (fs, some (.write path))

end PubSweep.Files
