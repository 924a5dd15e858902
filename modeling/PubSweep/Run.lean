import PubSweep.Codec.Finding
import PubSweep.Pass

/-!
A whole run: projects are loaded, then a pass goes over them.
-/

namespace PubSweep

open Syntax

/-- Why a run has no outcome. -/
inductive RunError where
  | cancelled
  | internal (message : String)
deriving Repr, DecidableEq

/-- The words for an error. -/
def RunError.message : RunError → String
  | .cancelled => "cancelled"
  | .internal message => message

/-- What a run is asked to do. -/
structure Settings where
  root : Path := ⟨"."⟩
  fix : FixId := .standard
  kinds : List ItemKind := ItemKind.standard
deriving Repr, DecidableEq, Inhabited

/-- The rule of a run. -/
def Settings.rule : RuleId := .missingVisibility

/-- Projects in the order of their roots. -/
def sortByRoot (projects : List Project) : List Project :=
  projects.mergeSort fun a b => (a.root.compare b.root).isLE

/-- The pass of a run. -/
def Settings.pass (s : Settings) (parser : Parser) (tool : ToolInfo) : Pass where
  parser := parser
  collector := .standard s.kinds
  tool := tool
  patchBase := some s.root

/-- A pass over projects that are loaded first; `source` is what loading gives. -/
def runSource (parser : Parser) (settings : Settings) (tool : ToolInfo) (mode : Mode)
    (stamp : Stamp) (interrupt : Interrupt) (source : Except String (List Project)) :
    Except RunError Outcome :=
  if interrupt .load then .error .cancelled
  else
    match source with
    | .error e => .error (.internal ("load projects: " ++ e))
    | .ok projects =>
      match (settings.pass parser tool).run projects Settings.rule settings.fix mode stamp
          interrupt with
      | .ok outcome => .ok outcome
      | .error e =>
        let context :=
          match mode with
          | .check => "run check pass: "
          | .fix => "run fix pass: "
        .error (.internal (context ++ e.message))

end PubSweep
