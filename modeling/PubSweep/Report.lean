import PubSweep.Identity
import PubSweep.Text.Position
import PubSweep.Time

/-!
Reports on passes.
-/

namespace PubSweep

/-- Counts and offsets have 64 bits. -/
def wordSize : Nat := 0x10000000000000000

/-- The name and version of the tool that made a report. -/
structure ToolInfo where
  name : String
  version : Option String := none
deriving Repr, DecidableEq, Inhabited

/-- What went wrong with a document. -/
inductive FailureKind where
  /-- A finding leads to no item that can be fixed. -/
  | nodeNotFound
  /-- Two edits collide. -/
  | overlappingEdits
  /-- The rule could not be evaluated. -/
  | ruleEvaluationFailed
  /-- The document would no longer parse. -/
  | syntaxBroken
deriving Repr, DecidableEq, Inhabited

namespace FailureKind

/-- All kinds of failure. -/
def all : List FailureKind := [nodeNotFound, overlappingEdits, ruleEvaluationFailed, syntaxBroken]

/-- The name of a kind. -/
def name : FailureKind → String
  | nodeNotFound => "node_not_found"
  | overlappingEdits => "overlapping_edits"
  | ruleEvaluationFailed => "rule_evaluation_failed"
  | syntaxBroken => "syntax_broken"

end FailureKind

/-- A problem with one document. -/
structure Failure where
  project : String
  path : String
  kind : FailureKind
  message : String
  line : Option Nat := none
  column : Option Nat := none
deriving Repr, DecidableEq, Inhabited

/-- A document whose text was changed. -/
structure DocumentChange where
  path : String
  edits : Nat
  sha256Before : String
  sha256After : String
deriving Repr, DecidableEq, Inhabited

/-- What a pass did in one project. -/
structure ProjectReport where
  name : String
  documentsScanned : Nat
  findings : Nat
  editsAccepted : Nat
  changes : List DocumentChange := []
deriving Repr, DecidableEq, Inhabited

/-- The totals of a report. -/
structure Summary where
  projects : Nat := 0
  documentsScanned : Nat := 0
  findings : Nat := 0
  editsAccepted : Nat := 0
  editsApplied : Nat := 0
  documentsChanged : Nat := 0
  failures : Nat := 0
deriving Repr, DecidableEq, Inhabited

/-- The name and times of a run, which nothing else depends on. -/
structure Stamp where
  runId : String
  startedAt : Option Timestamp := none
  endedAt : Option Timestamp := none
deriving Repr, DecidableEq, Inhabited

/-- The report on a pass. -/
structure Report where
  schema : String
  stamp : Stamp
  tool : ToolInfo
  rule : RuleId
  fix : FixId
  /-- The pass was cancelled, and nothing was changed. -/
  cancelled : Bool := false
  projects : List ProjectReport := []
  failures : List Failure := []
  summary : Summary := {}
deriving Repr, DecidableEq, Inhabited

namespace Report

/-- The name of the form of reports. -/
def schemaName : String := "visfix.report.v1"

/-- The report of a pass that has not started. -/
def start (stamp : Stamp) (tool : ToolInfo) (rule : RuleId) (fix : FixId) : Report where
  schema := schemaName
  stamp := { stamp with endedAt := none }
  tool := tool
  rule := rule
  fix := fix

/-- The totals of some project reports and a number of failures. -/
def totals (projects : List ProjectReport) (failures : Nat) : Summary :=
  let sum (f : ProjectReport → Nat) : Nat := projects.foldr (fun p n => f p + n) 0 % wordSize
  { projects := projects.length
    documentsScanned := sum (·.documentsScanned)
    findings := sum (·.findings)
    editsAccepted := sum (·.editsAccepted)
    editsApplied := sum fun p => p.changes.foldr (fun c n => c.edits + n) 0
    documentsChanged := sum (·.changes.length)
    failures }

/-- The finished report: with the time of its end and its totals. -/
def finish (r : Report) (endedAt : Option Timestamp) : Report :=
  { r with
    stamp := { r.stamp with endedAt }
    summary := totals r.projects r.failures.length }

/-- Whether something went wrong. -/
def hasFailures (r : Report) : Bool := !r.failures.isEmpty

end Report

end PubSweep
