import PubSweep.Report
import PubSweep.Visibility.Check
import PubSweep.Visibility.Proposal

/-!
What a rule finds in a project, and the batch of edits for one fix.
-/

namespace PubSweep

/-- Why nothing can be collected. -/
inductive CollectError where
  | unknownRule (rule : RuleId)
  | fixRuleMismatch (fix : FixId) (rule : RuleId)
  | noProposer (fix : FixId)
  | cancelled
deriving Repr, DecidableEq

/-- The words for an error. -/
def CollectError.message : CollectError → String
  | .unknownRule rule => "rule `" ++ rule.name ++ "` is not registered"
  | .fixRuleMismatch fix rule =>
    "fix `" ++ fix.name ++ "` does not resolve rule `" ++ rule.name ++ "`"
  | .noProposer fix => "no proposer produces fix `" ++ fix.name ++ "`"
  | .cancelled => "pass cancelled"

/-- The rules and proposers at hand. -/
structure Collector where
  rules : List Rule
  proposers : List Proposer

namespace Collector

/-- The collector that checks some kinds of items for their visibility. -/
def standard (kinds : List ItemKind) : Collector where
  rules := [Visibility.rule kinds]
  proposers := Visibility.proposers

end Collector

/-- A failure of a document. -/
def Failure.ofDocument (project : String) (path : Path) (kind : FailureKind) (message : String)
    (position : Option Position) : Failure where
  project := project
  path := path.text
  kind := kind
  message := message
  line := position.map (·.line)
  column := position.map (·.column)

/-- What was found in one document. -/
structure DocumentScan where
  findings : List Finding := []
  edits : List Edit := []
  failures : List Failure := []
deriving Inhabited

/-- The edits that proposers make for a finding. -/
def proposalsFor (proposers : List Proposer) (document : Document) (finding : Finding) :
    List Edit :=
  proposers.filterMap fun p => (p.propose document finding).toOption

/-- The first error of a proposer that serves a fix. -/
def firstRefusal (proposers : List Proposer) (fix : FixId) (document : Document)
    (finding : Finding) : Option FixError :=
  proposers.findSome? fun p =>
    if p.fix = fix then
      match p.propose document finding with
      | .ok _ => none
      | .error e => some e
    else none

/-- Evaluates a rule on a document, and has an edit proposed for each finding.  A finding that a
proposer of the fix refuses is one failure, however many refuse it. -/
def scanDocument (project : String) (rule : Rule) (proposers : List Proposer) (fix : FixId)
    (document : Document) : DocumentScan :=
  match rule.evaluate document with
  | .error e =>
    { failures :=
        [.ofDocument project document.path .ruleEvaluationFailed e.message e.position] }
  | .ok findings =>
    { findings
      edits := findings.flatMap (proposalsFor proposers document)
      failures := findings.filterMap fun f =>
        (firstRefusal proposers fix document f).map fun e =>
          .ofDocument project document.path .nodeNotFound e.message (some f.position) }

/-- What was found in a project. -/
structure Collection where
  batch : FixBatch
  findings : List Finding
  failures : List Failure
  documentsScanned : Nat
deriving Inhabited

/-- Puts the scans of all documents together. -/
def Collection.ofScans (rule : RuleId) (fix : FixId) (scans : List DocumentScan) : Collection where
  batch := (scans.flatMap (·.edits)).foldl (fun b e => (b.accept e).2) { rule, fix }
  findings := scans.flatMap (·.findings)
  failures := scans.flatMap (·.failures)
  documentsScanned := scans.length

/-- Scans all documents of a project.  Mistakes of the caller come before all else; `interrupted`
tells before which documents the pass is found cancelled. -/
def Collector.collect (c : Collector) (project : Project) (rule : RuleId) (fix : FixId)
    (interrupted : Nat → Bool) : Except CollectError Collection :=
  match c.rules.find? (·.id = rule) with
  | none => .error (.unknownRule rule)
  | some r =>
    if fix.rule ≠ rule then .error (.fixRuleMismatch fix rule)
    else
      let proposers := c.proposers.filter (·.rule = rule)
      if !proposers.any (·.fix = fix) then .error (.noProposer fix)
      else if (List.range project.documents.length).any interrupted then .error .cancelled
      else
        .ok (.ofScans rule fix
          (project.documents.map (scanDocument project.name r proposers fix)))

end PubSweep
