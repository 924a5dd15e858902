import PubSweep.Identity

/-!
The commands of the tool and their options.
-/

namespace PubSweep.Command

/-- The options of the commands. -/
inductive Flag where
  | root
  | outDir
  | kind
  | exclude
  | fix
  | apply
  | format
deriving Repr, DecidableEq, Inhabited

namespace Flag

/-- The name of an option, without the hyphens in front. -/
def name : Flag → String
  | root => "root"
  | outDir => "out-dir"
  | kind => "kind"
  | exclude => "exclude"
  | fix => "fix"
  | apply => "apply"
  | format => "format"

/-- What stands for the value of an option; none for an option without a value. -/
def placeholder : Flag → Option String
  | root => some "ROOT"
  | outDir => some "OUT_DIR"
  | kind => some "KINDS"
  | exclude => some "EXCLUDE"
  | fix => some "FIX"
  | apply => none
  | format => some "FORMAT"

/-- How an option is shown. -/
def label (f : Flag) : String :=
  match f.placeholder with
  | some value => "--" ++ f.name ++ " <" ++ value ++ ">"
  | none => "--" ++ f.name

/-- What an option is for. -/
def about : Flag → String
  | root => "Root directory to scan (default: current directory) [default: .]"
  | outDir =>
    "Output directory for report.json, report.md and patch.diff (default: <root>/target/visfix)"
  | kind => "Item kinds to check, comma separated (struct, enum, union, trait, fn, type)"
  | exclude => "Glob patterns to skip, relative to the root. Repeatable"
  | fix => "Fix to apply (make_pub, make_pub_crate). Falls back to visfix.toml, then make_pub"
  | apply => "Write edited files back to disk"
  | format => "Output format (text, json) [default: text] [possible values: text, json]"

end Flag

/-- The commands. -/
inductive Verb where
  | check
  | fix
  | listFixes
deriving Repr, DecidableEq, Inhabited

namespace Verb

/-- All commands. -/
def all : List Verb := [check, fix, listFixes]

/-- The name of a command. -/
def name : Verb → String
  | check => "check"
  | fix => "fix"
  | listFixes => "list-fixes"

/-- What a command does. -/
def about : Verb → String
  | check => "Report items missing a visibility modifier (exit 2 when any are found)"
  | fix =>
    "Insert the chosen visibility modifier everywhere it is missing (default: preview only)"
  | listFixes => "List the available fixes"

/-- The options of a command. -/
def flags : Verb → List Flag
  | check => [.root, .outDir, .kind, .exclude]
  | fix => [.root, .outDir, .kind, .exclude, .fix, .apply]
  | listFixes => [.format]

/-- The command of a name. -/
def ofName? (name : String) : Option Verb := all.find? (·.name == name)

/-- The option of a name, among those of a command. -/
def flag? (v : Verb) (name : String) : Option Flag := v.flags.find? (·.name == name)

end Verb

/-- The name of the command that shows help. -/
def helpName : String := "help"

/-- What the help is about. -/
inductive Topic where
  | tool
  | verb (v : Verb)
  | help
deriving Repr, DecidableEq

/-- The topic of the name of a command. -/
def Topic.ofName? (name : String) : Option Topic :=
  if name = helpName then some .help else (Verb.ofName? name).map Topic.verb

end PubSweep.Command
