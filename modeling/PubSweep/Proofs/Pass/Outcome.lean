import PubSweep.Proofs.Apply.Atomicity
import PubSweep.Proofs.Collection
import PubSweep.Proofs.Pass.Fidelity

/-!
The outcome of a pass that corrects, for any rules and proposers.

A pass that is not interrupted fails because of a mistake of its caller (`Pass.run_of_refusal`), or
puts together what it makes of each project (`Pass.run_calm`).
-/

namespace PubSweep

open Syntax

/-- What a rule and the proposers of a collector give for a project. -/
def Collector.collected (c : Collector) (r : Rule) (rule : RuleId) (fix : FixId)
    (project : Project) : Collection :=
  .ofScans rule fix (project.documents.map (scanDocument project.name r c.proposers fix))

theorem Collector.collect_calm {c : Collector} {rule : RuleId} {fix : FixId}
    (h : c.refusal rule fix = none) :
    ∃ r, c.rules.find? (·.id = rule) = some r ∧ ∀ project,
      c.collect project rule fix (fun _ => false) = .ok (c.collected r rule fix project) := by
  obtain ⟨r, hr, hcollect⟩ := collect_of_refusal_eq_none h
  refine ⟨r, hr, ?_⟩
  intro project
  rw [hcollect, if_neg (by simp), filter_rule_proposers]
  rfl

/-- The documents of projects, each with its project. -/
def located (projects : List Project) : List (Project × Document) :=
  projects.flatMap fun q => q.documents.map fun d => (q, d)

namespace Pass

section

variable (p : Pass) (r : Rule) (rule : RuleId) (fix : FixId)

/-- The document in the place of a document of a project behind a pass. -/
def settle (q : Project) : Document → Document :=
  settled p.parser (p.collector.collected r rule fix q).batch

/-- What a pass makes of a project, with the rule that it has found. -/
def outcomeIn (q : Project) : ProjectOutcome :=
  let collection := p.collector.collected r rule fix q
  { project := { q with documents := q.documents.map (p.settle r rule fix q) }
    report :=
      { name := q.name
        documentsScanned := collection.documentsScanned
        findings := collection.findings.length
        editsAccepted := collection.batch.size
        changes := q.documents.filterMap fun d =>
          (editOutcome p.parser collection.batch d).change? }
    findings := collection.findings
    failures := collection.failures ++ q.documents.filterMap fun d =>
      (editOutcome p.parser collection.batch d).failure? q.name }

/-- The outcome that is put together from those of the projects. -/
def assembled (stamp : Stamp) (projects : List Project) : Outcome :=
  let outcomes := projects.map (p.outcomeIn r rule fix)
  { projects := outcomes.map ProjectOutcome.project
    report :=
      { Report.start stamp p.tool rule fix with
        projects := outcomes.map ProjectOutcome.report
        failures := outcomes.flatMap ProjectOutcome.failures }.finish stamp.endedAt
    findings := outcomes.flatMap ProjectOutcome.findings
    patch := p.patch projects (outcomes.map ProjectOutcome.project) }

/-- Documents stand beside those in their places. -/
theorem pairs_assembled (stamp : Stamp) (projects : List Project) :
    pairs projects (p.assembled r rule fix stamp projects).projects =
      (located projects).map fun (q, d) =>
        (q, (p.outcomeIn r rule fix q).project, d, p.settle r rule fix q d) := by
  simp only [pairs, assembled, List.map_map, List.zip, List.zipWith_map_right, List.zipWith_self,
    List.flatMap_map, located, List.map_flatMap, Function.comp_def, outcomeIn]

end

variable {p : Pass} {rule : RuleId} {fix : FixId}

theorem run_of_refusal {e : CollectError} (h : p.collector.refusal rule fix = some e)
    {projects : List Project} (hne : projects ≠ []) (mode : Mode) (stamp : Stamp)
    (interrupt : Interrupt) : p.run projects rule fix mode stamp interrupt = .error e := by
  obtain ⟨project, rest, rfl⟩ := List.exists_cons_of_ne_nil hne
  simp only [run, runProjects, runProject_of_refusal h]

/-- Without a mistake of the caller, a pass over projects whose documents have different identities
puts together what it makes of each project. -/
theorem run_calm (h : p.collector.refusal rule fix = none) :
    ∃ r, p.collector.rules.find? (·.id = rule) = some r ∧ ∀ projects : List Project,
      (∀ q ∈ projects, (q.documents.map Document.id).Nodup) → ∀ stamp,
        p.run projects rule fix .fix stamp .never =
          .ok (p.assembled r rule fix stamp projects) := by
  obtain ⟨r, hr, hcollect⟩ := Collector.collect_calm h
  refine ⟨r, hr, ?_⟩
  intro projects hids stamp
  have hruns : p.runProjects rule fix .fix .never 0 projects =
      .ok (some (projects.map (p.outcomeIn r rule fix))) := by
    apply runProjects_eq_map
    intro q hq index
    have happly := applyBatch_eq p.parser (p.collector.collected r rule fix q).batch (hids q hq)
    simp only [runProject, Interrupt.never, hcollect, happly]
    rfl
  simp only [run, hruns]
  rfl

end Pass

end PubSweep
