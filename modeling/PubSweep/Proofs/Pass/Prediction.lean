import Mathlib.Data.List.Flatten
import PubSweep.Proofs.Pass.Outcome

/-!
What a check tells of the pass that corrects.

Nothing is asked of the projects here: documents may share their identities.  `Works` is what is
collected in each project and what the collected batch does to it, and `Works.run_check` and
`Works.run_fix` are the outcomes that both kinds of pass put together from this.
`check_predicts_run` compares the two.
-/

namespace PubSweep

open Syntax

/-! ### Collections -/

namespace Collector

variable {c : Collector} {q : Project} {rule : RuleId} {fix : FixId} {interrupted : Nat → Bool}
  {collection : Collection}

/-- Whatever a collector gives, it has scanned all documents for one rule. -/
theorem exists_collected (h : c.collect q rule fix interrupted = .ok collection) :
    ∃ r, collection = c.collected r rule fix q := by
  cases hrefusal : c.refusal rule fix with
  | some e =>
      rw [(collect_of_refusal hrefusal q interrupted).1] at h
      cases h
  | none =>
      obtain ⟨r, -, hcollect⟩ := collect_of_refusal_eq_none hrefusal
      rw [hcollect, filter_rule_proposers] at h
      split at h
      · cases h
      · exact ⟨r, (Except.ok.inj h).symm⟩

/-- A document fails in a collection because the rule cannot be evaluated, or because a finding
leads to no item. -/
theorem kind_of_mem_failures (h : c.collect q rule fix interrupted = .ok collection) {f : Failure}
    (hf : f ∈ collection.failures) :
    f.kind = .ruleEvaluationFailed ∨ f.kind = .nodeNotFound := by
  obtain ⟨r, rfl⟩ := exists_collected h
  simp only [collected, Collection.ofScans, List.flatMap_map, List.mem_flatMap,
    failures_scanDocument] at hf
  obtain ⟨d, -, hf⟩ := hf
  rw [Rule.failuresIn] at hf
  split at hf
  · obtain ⟨finding, -, hfinding⟩ := List.mem_filterMap.mp hf
    obtain ⟨e, -, rfl⟩ := Option.map_eq_some_iff.mp hfinding
    exact Or.inr rfl
  · rw [List.mem_singleton.mp hf]
    exact Or.inl rfl

end Collector

/-- A batch fails on documents that have edits in it. -/
theorem exists_of_mem_failures {parser : Parser} {batch : FixBatch} {q : Project}
    {applied : Applied} (h : applyBatch parser q batch (fun _ => false) = some applied)
    {f : Failure} (hf : f ∈ applied.failures) :
    ∃ d ∈ q.documents, batch.editsFor d.id ≠ [] ∧ failureOf parser batch q.name d = some f := by
  rw [applyBatch_calm] at h
  cases Option.some.inj h
  obtain ⟨o, ho, hfailure⟩ := List.mem_filterMap.mp hf
  obtain ⟨d, hd, rfl⟩ := List.mem_map.mp ho
  obtain ⟨hd, hedits⟩ := List.mem_filter.mp hd
  refine ⟨d, hd, by simpa using hedits, ?_⟩
  rw [← failure?_editOutcome]
  exact hfailure

/-! ### Both kinds of pass -/

namespace Pass

section

variable (p : Pass) (rule : RuleId) (fix : FixId) (projects : List Project)
  (collection : Project → Collection) (applied : Project → Applied)

/-- What is collected in each project, and what the collected batch does to it. -/
structure Works : Prop where
  collects : ∀ q ∈ projects, p.collector.collect q rule fix (fun _ => false) = .ok (collection q)
  applies : ∀ q ∈ projects,
    applyBatch p.parser q (collection q).batch (fun _ => false) = some (applied q)

/-- The report on a project in which some documents were changed. -/
def reportOf (q : Project) (c : Collection) (changes : List DocumentChange) : ProjectReport where
  name := q.name
  documentsScanned := c.documentsScanned
  findings := c.findings.length
  editsAccepted := c.batch.size
  changes := changes

/-- The outcome of a check. -/
def checkOutcome (stamp : Stamp) : Outcome where
  projects := projects
  report :=
    { Report.start stamp p.tool rule fix with
      projects := projects.map fun q => reportOf q (collection q) []
      failures := projects.flatMap fun q => (collection q).failures }.finish stamp.endedAt
  findings := projects.flatMap fun q => (collection q).findings
  patch := ""

/-- The outcome of a pass that corrects. -/
def fixOutcome (stamp : Stamp) : Outcome where
  projects := projects.map fun q => (applied q).project
  report :=
    { Report.start stamp p.tool rule fix with
      projects := projects.map fun q => reportOf q (collection q) (applied q).changes
      failures := projects.flatMap fun q =>
        (collection q).failures ++ (applied q).failures }.finish stamp.endedAt
  findings := projects.flatMap fun q => (collection q).findings
  patch := p.patch projects (projects.map fun q => (applied q).project)

variable {p rule fix projects collection applied}

theorem Works.run_check (h : p.Works rule fix projects collection applied) (stamp : Stamp) :
    p.run projects rule fix .check stamp .never =
      .ok (p.checkOutcome rule fix projects collection stamp) := by
  have hruns : p.runProjects rule fix .check .never 0 projects = .ok (some (projects.map fun q =>
      ⟨q, reportOf q (collection q) [], (collection q).findings, (collection q).failures⟩)) := by
    apply runProjects_eq_map
    intro q hq index
    simp only [runProject, Interrupt.never, h.collects q hq]
    rfl
  simp only [run, hruns, finished, checkOutcome, List.map_map, List.flatMap_map, Function.comp_def,
    List.map_id']

theorem Works.run_fix (h : p.Works rule fix projects collection applied) (stamp : Stamp) :
    p.run projects rule fix .fix stamp .never =
      .ok (p.fixOutcome rule fix projects collection applied stamp) := by
  have hruns : p.runProjects rule fix .fix .never 0 projects = .ok (some (projects.map fun q =>
      ⟨(applied q).project, reportOf q (collection q) (applied q).changes, (collection q).findings,
        (collection q).failures ++ (applied q).failures⟩)) := by
    apply runProjects_eq_map
    intro q hq index
    simp only [runProject, Interrupt.never, h.collects q hq, h.applies q hq]
    rfl
  simp only [run, hruns, finished, fixOutcome, List.map_map, List.flatMap_map, Function.comp_def]

end

/-- A pass that is not interrupted fails because of a mistake of its caller, whatever its mode; or
it works through all projects. -/
theorem refused_or_works (p : Pass) (rule : RuleId) (fix : FixId) (projects : List Project) :
    (∃ e, p.collector.refusal rule fix = some e ∧ ∀ mode stamp,
        p.run projects rule fix mode stamp .never = .error e) ∨
      ∃ collection applied, p.Works rule fix projects collection applied := by
  cases hrefusal : p.collector.refusal rule fix with
  | some e =>
      by_cases hnil : projects = []
      · -- nothing is asked of the collector where there are no projects
        subst hnil
        exact Or.inr ⟨fun _ => default, fun _ => default, by simp, by simp⟩
      · exact Or.inl ⟨e, rfl, fun mode stamp => run_of_refusal hrefusal hnil mode stamp .never⟩
  | none =>
      obtain ⟨r, -, hcollect⟩ := Collector.collect_calm hrefusal
      exact Or.inr ⟨p.collector.collected r rule fix,
        fun q => appliedBatch p.parser (p.collector.collected r rule fix q).batch q,
        fun q _ => hcollect q, fun q _ => applyBatch_calm p.parser _ q⟩

/-! ### The comparison -/

/-- What the outcome of a check tells of the outcome of the pass that corrects. -/
structure Predicts (p : Pass) (projects : List Project) (collection : Project → Collection)
    (applied : Project → Applied) (check run : Outcome) : Prop where
  /-- A check leaves the very same documents. -/
  untouched : check.projects = projects
  unpatched : check.patch = ""
  findings : check.findings = run.findings
  /-- Each project has its report, -/
  names : check.report.projects.map (·.name) = projects.map (·.name)
  /-- and both reports are the same but for the changes, of which a check has none. -/
  reports : check.report.projects = run.report.projects.map fun r => { r with changes := [] }
  /-- A check fails where the rule cannot be evaluated, and where a finding leads to no item. -/
  collected : check.report.failures = projects.flatMap fun q => (collection q).failures
  kinds : ∀ f ∈ check.report.failures, f.kind = .ruleEvaluationFailed ∨ f.kind = .nodeNotFound
  /-- In each project, the pass that corrects fails where the check does, and then where the batch
  cannot be applied. -/
  failures : run.report.failures = projects.flatMap fun q =>
    (collection q).failures ++ (applied q).failures
  subsequence : check.report.failures.Sublist run.report.failures
  /-- The batch cannot be applied to documents that have edits in it. -/
  others : ∀ q ∈ projects, ∀ f ∈ (applied q).failures, ∃ d ∈ q.documents,
    (collection q).batch.editsFor d.id ≠ [] ∧
      failureOf p.parser (collection q).batch q.name d = some f

/-- A check and a pass that corrects, both over the same projects and not interrupted, fail with the
same error or predict each other. -/
theorem check_predicts_run (p : Pass) (projects : List Project) (rule : RuleId) (fix : FixId)
    (stamp stamp' : Stamp) :
    (∃ e, p.run projects rule fix .check stamp .never = .error e ∧
        p.run projects rule fix .fix stamp' .never = .error e) ∨
      ∃ check run collection applied,
        p.run projects rule fix .check stamp .never = .ok check ∧
        p.run projects rule fix .fix stamp' .never = .ok run ∧
        p.Works rule fix projects collection applied ∧
        Predicts p projects collection applied check run := by
  rcases p.refused_or_works rule fix projects with ⟨e, -, hrun⟩ | ⟨collection, applied, hworks⟩
  · exact Or.inl ⟨e, hrun .check stamp, hrun .fix stamp'⟩
  · refine Or.inr ⟨_, _, collection, applied, hworks.run_check stamp, hworks.run_fix stamp', hworks,
      ?_⟩
    constructor
    case untouched => rfl
    case unpatched => rfl
    case findings => rfl
    case names =>
      simp only [checkOutcome, Report.finish, List.map_map]
      rfl
    case reports =>
      simp only [checkOutcome, fixOutcome, Report.finish, List.map_map]
      rfl
    case collected => rfl
    case kinds =>
      intro f hf
      obtain ⟨q, hq, hf⟩ := List.mem_flatMap.mp hf
      exact Collector.kind_of_mem_failures (hworks.collects q hq) hf
    case failures => rfl
    case subsequence =>
      exact List.Sublist.flatMap_right projects fun q _ => List.sublist_append_left _ _
    case others =>
      intro q hq f hf
      exact exists_of_mem_failures (hworks.applies q hq) hf

end Pass

end PubSweep
