import PubSweep.Command.Execute
import PubSweep.Syntax.Rust
import Std.Time.DateTime.Timestamp

/-!
The command line.

The part of the file system that a command can see is read first; then the command runs, and the
files that it changed are written.
-/

namespace PubSweep.CommandLine

open Files Command

/-- The place of a name in a directory. -/
def place (directory name : String) : IO.FS.DirEntry where
  root := directory
  fileName := name

/-- Reads an entry and all below it, but for the directories that no project has a part in. -/
partial def readTree (e : IO.FS.DirEntry) : IO (Option Entry) := do
  try
    match (← e.path.symlinkMetadata).type with
    | .file => return some (.file (← IO.FS.readBinFile e.path).toList)
    | .symlink => return some (.link (encode (toString (← IO.FS.realPath e.path))))
    | .dir =>
      let mut entries : List (FileName × Entry) := []
      for child in ← e.path.readDir do
        let name := encode child.fileName
        let isDirectory := (← child.path.symlinkMetadata).type matches .dir
        unless isDirectory && isSkipped name do
          if let some entry ← readTree child then entries := (name, entry) :: entries
      return some (.directory entries)
    | .other => return none
  catch _ => return none

/-- The location of a path without links. -/
def locationOf (path : String) : Location := (pieces (encode path)).filter (!List.isEmpty ·)

/-- Adds the entries on the way along some names, but nothing of what is in their directories. -/
partial def addWay (top : Entry) (directory : String) : List String → IO Entry
  | [] => return top
  | name :: rest => do
    let next := directory ++ "/" ++ name
    if name = "" || name = "." || name = ".." then addWay top next rest
    else
      try
        let real := toString (← IO.FS.realPath directory)
        let location := locationOf real ++ [encode name]
        let path := (place real name).path
        match (← path.symlinkMetadata).type with
        | .dir =>
          let known := (top.get? location).any Entry.isDirectory
          addWay (if known then top else top.plant location (.directory [])) next rest
        | .file => return top.plant location (.file (← IO.FS.readBinFile path).toList)
        | .symlink =>
          let target := toString (← IO.FS.realPath path)
          let top ← addWay (top.plant location (.link (encode target))) "/" (target.splitOn "/")
          addWay top next rest
        | .other => return top
      catch _ => return top

/-- Adds what is on the way to a path. -/
def addPath (cwd : String) (top : Entry) (path : Path) : IO Entry :=
  addWay top (if path.isAbsolute then "/" else cwd) (path.text.splitOn "/")

/-- Reads what a command with these options can see. -/
def readFiles (cwd : String) (given : Given) : IO FileSystem := do
  let mut top : Entry := .directory []
  let root := given.rootPath
  try
    let real := toString (← IO.FS.realPath ((Path.mk cwd).join root).text)
    if let some tree ← readTree (place real ".") then top := top.plant (locationOf real) tree
  catch _ => pure ()
  top ← addPath cwd top ⟨cwd⟩
  for path in [root.join ⟨Config.fileName⟩, root.join ⟨manifestName⟩] do
    top ← addPath cwd top path
  for name in ["report.json", "report.md", "patch.diff"] do
    top ← addPath cwd top (given.outPath.join ⟨name⟩)
  return { top, cwd := locationOf cwd }

/-- The present moment. -/
def now : IO Timestamp := do
  let nanos := (← Std.Time.Timestamp.now).toNanosecondsSinceUnixEpoch.val
  return ⟨Int.fdiv nanos 1000000000, (Int.fmod nanos 1000000000).toNat⟩

/-- A name for a run, drawn at random. -/
def randomName : IO String := do
  let bytes := (← IO.getRandomBytes 16).toList
  return (Uuid.ofBytes (bytes.zipIdx.map fun (b, i) =>
    if i = 6 then b &&& 0x0f ||| 0x40
    else if i = 8 then b &&& 0x3f ||| 0x80
    else b)).render

/-- Writes the files that a command changed. -/
def writeFiles (before after : FileSystem) : IO Unit := do
  for (location, contents) in after.changedSince before do
    if let some name := locationText? location then
      let path := "/" ++ name
      if let some parent := (Path.mk path).parent then IO.FS.createDirAll parent.text
      IO.FS.writeBinFile path ⟨contents.toArray⟩

end PubSweep.CommandLine

open PubSweep PubSweep.Command PubSweep.CommandLine in
/-- Runs the tool. -/
def main (arguments : List String) : IO UInt32 := do
  let cwd := toString (← IO.currentDir)
  let files ←
    match readArguments arguments with
    | .ok (.check, given) | .ok (.fix, given) => readFiles cwd given
    | _ => pure default
  let moment ← now
  let stamp := { runId := ← randomName, startedAt := some moment, endedAt := some moment }
  let ending := execute { parser := Syntax.Parser.rust, stamp } files arguments
  let mut code := ending.exitCode
  try writeFiles files ending.files
  catch e =>
    IO.eprintln (toString e)
    code := exitError
  IO.print ending.stdout
  IO.eprint ending.stderr
  return UInt32.ofNat code
