import PubSweep.Edit

/-!
Rules and proposers: what finds faults in a document, and what proposes an edit for a finding.
-/

namespace PubSweep

/-- Why a rule cannot be evaluated. -/
inductive RuleError where
  /-- The document has a syntax error. -/
  | malformedTree (path : Path) (position : Position)
deriving DecidableEq

namespace RuleError

/-- The words for an error. -/
def message : RuleError → String
  | malformedTree path position =>
    "cannot evaluate " ++ path.text ++ ": syntax error at " ++ position.render

/-- Where the error is. -/
def position : RuleError → Option Position
  | malformedTree _ position => some position

end RuleError

/-- Why no edit can be proposed for a finding. -/
inductive FixError where
  /-- There is no item without a visibility at the place of the finding. -/
  | nodeNotFound (path : Path) (span : Span)
deriving DecidableEq

/-- The words for an error. -/
def FixError.message : FixError → String
  | .nodeNotFound path span => "no fixable item at " ++ span.render ++ " in " ++ path.text

/-- A rule: finds faults in a document. -/
structure Rule where
  id : RuleId
  evaluate : Document → Except RuleError (List Finding)

/-- A proposer: proposes an edit that serves a fix. -/
structure Proposer where
  fix : FixId
  propose : Document → Finding → Except FixError Edit

/-- The rule that the fix of a proposer serves. -/
def Proposer.rule (p : Proposer) : RuleId := p.fix.rule

end PubSweep
