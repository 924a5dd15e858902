import PubSweep.Diff.Hunk
import PubSweep.PathMap

/-!
Patches: unified diffs of several files.
-/

namespace PubSweep.Patch

/-- The lines of a text without their ends; a line ends with a line feed, or with a carriage return
and a line feed. -/
def linesOf (text : String) : List String :=
  (Diff.splitLines text.toList).map fun line =>
    let cs := if line.getLast? = some '\n' then line.dropLast else line
    let ended := line.getLast? = some '\n'
    String.ofList (if ended && cs.getLast? = some '\r' then cs.dropLast else cs)

/-- The section of a file whose text differs. -/
def renderSection (path : Path) (old new : String) : String :=
  let p := path.text
  "diff --git a/" ++ p ++ " b/" ++ p ++ "\n--- a/" ++ p ++ "\n+++ b/" ++ p ++ "\n" ++
    String.join ((linesOf (Diff.render old new)).map (· ++ "\n"))

/-- The patch from the texts before to the texts after.  A file that has no text after is left
alone. -/
def render (before after : PathMap String) : String :=
  String.join <| before.entries.map fun (path, old) =>
    let new := (after.get? path).getD old
    if old = new then "" else renderSection path old new

end PubSweep.Patch
