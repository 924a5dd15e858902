import PubSweep.Apply
import PubSweep.Patch

/-!
A pass over projects: what is wrong is collected and, unless the pass only checks, put right.

A pass can be interrupted between documents.  It then changes nothing at all.
-/

namespace PubSweep

open Syntax

/-- A point at which a run asks whether it was cancelled. -/
inductive Checkpoint where
  /-- Before a fix loads its projects. -/
  | command
  /-- Before a pass loads its projects. -/
  | load
  /-- Before a document is scanned. -/
  | scan (project document : Nat)
  /-- Before the edits of a document are applied. -/
  | apply (project document : Nat)
deriving Repr, DecidableEq

/-- Tells at which points a run is found cancelled. -/
abbrev Interrupt := Checkpoint → Bool

/-- The run that is not cancelled. -/
def Interrupt.never : Interrupt := fun _ => false

/-- The run that is cancelled from the start. -/
def Interrupt.always : Interrupt := fun _ => true

/-- The run that is cancelled while it scans a document. -/
def Interrupt.duringScan (project document : Nat) : Interrupt
  | .command | .load => false
  | .scan p d => decide (project < p) || (p == project && decide (document < d))
  | .apply p _ => decide (project ≤ p)

/-- Whether a pass changes documents. -/
inductive Mode where
  | check
  | fix
deriving Repr, DecidableEq, Inhabited

/-- What a pass works with. -/
structure Pass where
  parser : Parser
  collector : Collector
  tool : ToolInfo
  /-- Paths in the patch are relative to this one. -/
  patchBase : Option Path := none

/-- What came of a pass. -/
structure Outcome where
  /-- One project for each given one, in the same order. -/
  projects : List Project
  report : Report
  findings : List Finding
  /-- The difference to the given projects; empty for a check. -/
  patch : String
deriving Inhabited

/-- Whether anything was found. -/
def Outcome.hasFindings (o : Outcome) : Bool := !o.findings.isEmpty

/-- What came of a pass in one project. -/
structure ProjectOutcome where
  project : Project
  report : ProjectReport
  findings : List Finding
  failures : List Failure
deriving Inhabited

/-- The report on a project in which something was collected, before any edit is applied. -/
def Collection.report (project : Project) (c : Collection) : ProjectReport where
  name := project.name
  documentsScanned := c.documentsScanned
  findings := c.findings.length
  editsAccepted := c.batch.size

namespace ProjectOutcome

/-- What came of a check. -/
def checked (project : Project) (c : Collection) : ProjectOutcome :=
  ⟨project, c.report project, c.findings, c.failures⟩

/-- What came of a fix. -/
def fixed (project : Project) (c : Collection) (applied : Applied) : ProjectOutcome where
  project := applied.project
  report := { c.report project with changes := applied.changes }
  findings := c.findings
  failures := c.failures ++ applied.failures

end ProjectOutcome

namespace Pass

variable (p : Pass)

/-- The pass over one project; none if it is interrupted. -/
def runProject (rule : RuleId) (fix : FixId) (mode : Mode) (interrupt : Interrupt) (index : Nat)
    (project : Project) : Except CollectError (Option ProjectOutcome) :=
  match p.collector.collect project rule fix fun d => interrupt (.scan index d) with
  | .error .cancelled => .ok none
  | .error e => .error e
  | .ok collection =>
    match mode with
    | .check => .ok (some (.checked project collection))
    | .fix =>
      match applyBatch p.parser project collection.batch fun d => interrupt (.apply index d) with
      | none => .ok none
      | some applied => .ok (some (.fixed project collection applied))

/-- The pass over projects from a number on; none if it is interrupted. -/
def runProjects (rule : RuleId) (fix : FixId) (mode : Mode) (interrupt : Interrupt) :
    (index : Nat) → List Project → Except CollectError (Option (List ProjectOutcome))
  | _, [] => .ok (some [])
  | index, project :: rest =>
    match p.runProject rule fix mode interrupt index project with
    | .error e => .error e
    | .ok none => .ok none
    | .ok (some o) =>
      match runProjects rule fix mode interrupt (index + 1) rest with
      | .error e => .error e
      | .ok none => .ok none
      | .ok (some os) => .ok (some (o :: os))

/-- The path of a document in the patch. -/
def patchPath (root document : Path) : Path :=
  let root :=
    match p.patchBase with
    | some base => (root.relativeTo base).getD root
    | none => root
  (root.join document).toSlashes

/-- The documents of the given and the resulting projects, one beside the other. -/
def pairs (before after : List Project) : List (Project × Project × Document × Document) :=
  (before.zip after).flatMap fun (b, a) =>
    (b.documents.zip a.documents).map fun (db, da) => (b, a, db, da)

/-- The patch between the given and the resulting projects. -/
def patch (before after : List Project) : String :=
  let changed := (pairs before after).filterMap fun (b, _, db, da) =>
    if db.isShared da then none else some (p.patchPath b.root db.path, db.text, da.text)
  Patch.render (.ofList (changed.map fun (path, old, _) => (path, old)))
    (.ofList (changed.map fun (path, _, new) => (path, new)))

/-- The outcome of a pass that was cancelled: the given projects, and nothing found. -/
def cancelled (projects : List Project) (report : Report) (endedAt : Option Timestamp) :
    Outcome where
  projects := projects
  report :=
    { report with cancelled := true, projects := [], failures := [] }.finish endedAt
  findings := []
  patch := ""

/-- The outcome of a pass that went through all projects. -/
def finished (mode : Mode) (projects : List Project) (report : Report)
    (endedAt : Option Timestamp) (outcomes : List ProjectOutcome) : Outcome :=
  let after := outcomes.map ProjectOutcome.project
  { projects := after
    report :=
      { report with
        projects := outcomes.map ProjectOutcome.report
        failures := outcomes.flatMap ProjectOutcome.failures }.finish endedAt
    findings := outcomes.flatMap ProjectOutcome.findings
    patch :=
      match mode with
      | .check => ""
      | .fix => p.patch projects after }

/-- A pass over projects. -/
def run (projects : List Project) (rule : RuleId) (fix : FixId) (mode : Mode) (stamp : Stamp)
    (interrupt : Interrupt) : Except CollectError Outcome :=
  let report := Report.start stamp p.tool rule fix
  match p.runProjects rule fix mode interrupt 0 projects with
  | .error e => .error e
  | .ok none => .ok (cancelled projects report stamp.endedAt)
  | .ok (some outcomes) => .ok (p.finished mode projects report stamp.endedAt outcomes)

end Pass

end PubSweep
