import PubSweep.Identity
import PubSweep.Toml.Parse

/-!
Configuration files, and how the command line overrides them.
-/

namespace PubSweep

open Toml

/-- What a configuration file says. -/
structure Config where
  /-- The kinds to check, if it names any. -/
  kinds : Option (List ItemKind) := none
  fix : Option FixId := none
  /-- Patterns of files to leave out. -/
  exclude : List String := []
deriving Repr, DecidableEq, Inhabited

namespace Config

/-- The name of a configuration file. -/
def fileName : String := "visfix.toml"

/-- The fields of a section: from a table with no other members, or from an array of them in order.
Fields may be left out. -/
def fields? (names : List String) : Value → Option (List (Option Value))
  | .table members =>
    if members.all (names.contains ·.1) then some (names.map fun name => members.lookup name)
    else none
  | .array items =>
    some ((items.take names.length).map some ++
      List.replicate (names.length - items.length) none)
  | _ => none

/-- Reads one of some named values: from its name, or from a table with its name alone. -/
def named? {α : Type} (values : List α) (name : α → String) : Value → Option α
  | .string s => values.find? (name · == s)
  | .table [(s, .table [])] => values.find? (name · == s)
  | .table [(s, .array [])] => values.find? (name · == s)
  | _ => none

/-- Reads the items of a list. -/
def list? {α : Type} (item : Value → Option α) : Value → Option (List α)
  | .array items => items.mapM item
  | _ => none

/-- Reads a field, if it is there. -/
def field? {α : Type} (read : Value → Option α) : Option Value → Option (Option α)
  | none => some none
  | some v => (read v).map some

/-- Reads a section with one field, if it is there. -/
def section? {α : Type} (name : String) (read : Value → Option α) (v : Option Value) :
    Option (Option α) :=
  match v with
  | none => some none
  | some v =>
    match fields? [name] v with
    | some [field] => field? read field
    | _ => none

/-- Reads a configuration. -/
def ofValue? (v : Value) : Option Config := do
  let [rule, fix, discovery] ← fields? ["rule", "fix", "discovery"] v | none
  return {
    kinds := ← section? "kinds" (list? (named? ItemKind.all ItemKind.keyword)) rule
    fix := ← section? "default" (named? FixId.all FixId.name) fix
    exclude := (← section? "exclude" (list? Value.asString?) discovery).getD [] }

/-- Reads the text of a configuration file. -/
def parse? (text : String) : Option Config := (Toml.parse? text).bind fun ms => ofValue? (.table ms)

/-- The words for a file that cannot be read. -/
def parseMessage : String := "invalid TOML"

end Config

/-- What the command line asks for. -/
structure Overrides where
  fix : Option FixId := none
  kinds : List ItemKind := []
  exclude : List String := []
deriving Repr, DecidableEq, Inhabited

/-- The settings of a run. -/
structure MergedConfig where
  fix : FixId
  kinds : List ItemKind
  exclude : List String
deriving Repr, DecidableEq, Inhabited

namespace MergedConfig

/-- Adds a pattern unless it is there. -/
def addPattern (patterns : List String) (pattern : String) : List String :=
  if patterns.contains pattern then patterns else patterns ++ [pattern]

/-- The fix and the kinds of the command line replace those of the file; its patterns are added. -/
def merge (config : Config) (overrides : Overrides) : MergedConfig where
  fix := (overrides.fix.or config.fix).getD .standard
  kinds := ItemKind.normalize <|
    if overrides.kinds.isEmpty then config.kinds.getD ItemKind.standard else overrides.kinds
  exclude := overrides.exclude.foldl addPattern config.exclude

end MergedConfig

end PubSweep
