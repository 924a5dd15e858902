import PubSweep.Codec.Finding
import PubSweep.Command.Help
import PubSweep.Json.Print

/-!
The list of the fixes.
-/

namespace PubSweep.Command

open Json

/-- A fix as JSON, with all that is known of it. -/
def describeFix (f : FixId) : Json :=
  object
    [("fix_id", f.toJson), ("rule", f.rule.toJson), ("rule_code", string f.rule.code),
      ("title", string f.title), ("inserts", string f.token)]

/-- All fixes as JSON. -/
def describeFixes : Json := array (FixId.all.map describeFix)

/-- A row of the list. -/
def listRow (fix rule inserts title : String) : String :=
  "  " ++ padRight 16 fix ++ " " ++ padRight 8 rule ++ " " ++ padRight 12 inserts ++ " " ++ title ++
    "\n"

/-- All fixes as text. -/
def listText : String :=
  "Available fixes:\n\n" ++ listRow "FIX" "RULE" "INSERTS" "TITLE" ++
    listRow "---" "----" "-------" "-----" ++
    String.join (FixId.all.map fun f => listRow f.name f.rule.code f.token f.title) ++
    "\nUse 'visfix fix --fix <FIX>' to apply one.\n"

/-- All fixes as indented JSON. -/
def listJson : String := describeFixes.pretty ++ "\n"

end PubSweep.Command
