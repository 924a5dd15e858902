import PubSweep.Command.Flag

/-!
The help of the tool and of its commands.
-/

namespace PubSweep.Command

/-- A text filled up with blanks. -/
def padRight (width : Nat) (text : String) : String :=
  text ++ String.ofList (List.replicate (width - text.length) ' ')

/-- Two columns, the second as far to the right as the longest text of the first needs. -/
def columns (rows : List (String × String)) : String :=
  let width := rows.foldl (fun w (left, _) => max w left.length) 0
  String.join (rows.map fun (left, right) => "  " ++ padRight width left ++ "  " ++ right ++ "\n")

/-- The row of an option. -/
def Flag.row (f : Flag) : String × String := ("    " ++ f.label, f.about)

/-- The row of the option that shows help. -/
def helpRow : String × String := ("-h, --help", "Print help")

/-- The name of the tool. -/
def toolName : String := "visfix"

/-- The version of the tool. -/
def toolVersion : String := "0.1.0"

/-- What the command for help does. -/
def helpAbout : String := "Print this message or the help of the given subcommand(s)"

/-- The help on a topic. -/
def Topic.text : Topic → String
  | .tool =>
    "Finds Rust items without a visibility modifier and fixes them in bulk.\n\nUsage: " ++
      toolName ++ " <COMMAND>\n\nCommands:\n" ++
      columns (Verb.all.map (fun v => (v.name, v.about)) ++ [(helpName, helpAbout)]) ++
      "\nOptions:\n" ++ columns [helpRow, ("-V, --version", "Print version")]
  | .verb v =>
    v.about ++ "\n\nUsage: " ++ toolName ++ " " ++ v.name ++ " [OPTIONS]\n\nOptions:\n" ++
      columns (v.flags.map Flag.row ++ [helpRow])
  | .help =>
    helpAbout ++ "\n\nUsage: " ++ toolName ++ " " ++ helpName ++
      " [COMMAND]...\n\nArguments:\n" ++
      columns [("[COMMAND]...", "Print help for the subcommand(s)")]

/-- The text that tells the version. -/
def versionText : String := toolName ++ " " ++ toolVersion ++ "\n"

end PubSweep.Command
