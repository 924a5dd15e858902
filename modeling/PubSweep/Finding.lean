import PubSweep.Document
import PubSweep.Identity

/-!
Findings: the places where a rule is broken.
-/

namespace PubSweep

/-- A place where a rule is broken. -/
structure Finding where
  rule : RuleId
  document : DocumentId
  path : Path
  /-- The keyword of the item, in the text that was checked. -/
  span : Span
  position : Position
  item : ItemKind
  name : Option String := none
deriving DecidableEq, Inhabited

namespace Finding

/-- What is wrong, in words. -/
def message (f : Finding) : String :=
  match f.name with
  | some name => f.item.keyword ++ " `" ++ name ++ "` has no visibility modifier"
  | none => f.item.keyword ++ " has no visibility modifier"

/-- A finding on a line of its own. -/
def render (f : Finding) : String :=
  f.path.text ++ ":" ++ f.position.render ++ ": " ++ f.rule.code ++ " " ++ f.message ++ "\n"

/-- Findings one per line. -/
def renderAll (findings : List Finding) : String := String.join (findings.map render)

end Finding

end PubSweep
