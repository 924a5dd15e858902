import Mathlib.Data.List.Forall2
import PubSweep.Pass
import PubSweep.Proofs.Visibility.Correction
import PubSweep.Proofs.Visibility.FileParser

/-!
What a pass that is not interrupted does to the texts of all documents.

`run_standard` is the outcome of such a pass in full.  `text_fidelity` says it of each document: the
text stays, or gets the token of the fix in front of exactly the items that lack a visibility.
-/

namespace PubSweep

open Syntax

/-- If every project gets through a pass, so do all of them together. -/
theorem Pass.runProjects_eq_map {pass : Pass} {rule : RuleId} {fix : FixId} {mode : Mode}
    {interrupt : Interrupt} {projects : List Project} (result : Project → ProjectOutcome)
    (h : ∀ project ∈ projects, ∀ index,
      pass.runProject rule fix mode interrupt index project = .ok (some (result project)))
    (index : Nat) :
    pass.runProjects rule fix mode interrupt index projects =
      .ok (some (projects.map result)) := by
  induction projects generalizing index with
  | nil => rfl
  | cons project projects ih =>
      have hrest := ih (fun other hother => h other (List.mem_cons_of_mem project hother))
        (index + 1)
      simp only [runProjects, h project List.mem_cons_self index, hrest, List.map_cons]

namespace Visibility

section

variable (parser : Parser) (kinds : List ItemKind) (tool : ToolInfo) (base : Option Path)
  (rule : RuleId) (fix : FixId)

/-- The pass of the rule and its proposers. -/
def pass : Pass := ⟨parser, .standard kinds, tool, base⟩

/-- What a pass that is not interrupted makes of a project. -/
def projectOutcome (project : Project) : ProjectOutcome where
  project := { project with documents := project.documents.map (corrected parser kinds fix) }
  report :=
    { name := project.name
      documentsScanned := project.documents.length
      findings := (collected kinds rule fix project).findings.length
      editsAccepted := (collected kinds rule fix project).batch.size
      changes := project.documents.filterMap fun d =>
        (editOutcome parser (collected kinds rule fix project).batch d).change? }
  findings := (collected kinds rule fix project).findings
  failures := project.documents.filterMap (malformedFailure project.name) ++
    project.documents.filterMap (brokenFailure parser kinds fix project.name)

end

variable {parser : Parser} {kinds : List ItemKind} {tool : ToolInfo} {base : Option Path}
  {rule : RuleId} {fix : FixId}

theorem runProject_standard (hparser : parser.WellFormed) {project : Project}
    (hproject : project.Regular parser) (index : Nat) :
    (pass parser kinds tool base).runProject rule fix .fix .never index project =
      .ok (some (projectOutcome parser kinds rule fix project)) := by
  have hcollect := collect_standard kinds project rule fix
  have happly := applyBatch_collected kinds rule fix hparser hproject
  have hfailures := failures_collected kinds rule fix hparser hproject
  simp only [Pass.runProject, pass, Interrupt.never, hcollect, happly, ProjectOutcome.fixed,
    Collection.report, hfailures, projectOutcome]
  simp [collected, Collection.ofScans]

/-- The outcome of a pass that is not interrupted. -/
theorem run_standard (hparser : parser.WellFormed) {projects : List Project}
    (hprojects : ∀ project ∈ projects, project.Regular parser) (stamp : Stamp) :
    (pass parser kinds tool base).run projects rule fix .fix stamp .never =
      let outcomes := projects.map (projectOutcome parser kinds rule fix)
      let after := outcomes.map ProjectOutcome.project
      .ok
        { projects := after
          report :=
            { Report.start stamp tool rule fix with
              projects := outcomes.map ProjectOutcome.report
              failures := outcomes.flatMap ProjectOutcome.failures }.finish stamp.endedAt
          findings := outcomes.flatMap ProjectOutcome.findings
          patch := (pass parser kinds tool base).patch projects after } := by
  have hruns := Pass.runProjects_eq_map (projectOutcome parser kinds rule fix)
    (fun project hproject index =>
      @runProject_standard parser kinds tool base rule fix hparser project
        (hprojects project hproject) index) 0
  simp only [Pass.run, hruns]
  rfl

/-- What a pass makes of a document: nothing if it has faults or would get some, and else a document
with the corrected text. -/
structure Faithful (parser : Parser) (kinds : List ItemKind) (fix : FixId)
    (before after : Document) : Prop where
  id : after.id = before.id
  path : after.path = before.path
  faulty : (∃ p ∈ before.tree.root.places, p.node.isFault = true) → after = before
  broken : Breaks parser kinds fix before → after = before
  text : (∀ p ∈ before.tree.root.places, p.node.isFault = false) →
    ¬ Breaks parser kinds fix before →
      after.text = correctedText kinds fix before ∧ after.tree = parser.tree after.text

theorem faithful_corrected (hparser : parser.WellFormed) {d : Document}
    (hd : d.ParsedBy parser) : Faithful parser kinds fix d (corrected parser kinds fix d) := by
  have hfaults : d.tree.hasErrors = true ↔ ∃ p ∈ d.tree.root.places, p.node.isFault = true := by
    rw [Document.ParsedBy] at hd
    rw [hd]
    exact hparser.hasErrors_iff d.text
  by_cases hkeep : d.tree.hasErrors = true ∨ Breaks parser kinds fix d ∨
      correctedText kinds fix d = d.text
  · have hsame : corrected parser kinds fix d = d := by rw [corrected, if_pos hkeep]
    rw [hsame]
    refine ⟨rfl, rfl, fun _ => rfl, fun _ => rfl, ?_⟩
    intro hclean hfine
    have htext : correctedText kinds fix d = d.text := by
      rcases hkeep with herrors | hbreaks | htext
      · obtain ⟨p, hp, hfault⟩ := hfaults.mp herrors
        rw [hclean p hp] at hfault
        cases hfault
      · exact absurd hbreaks hfine
      · exact htext
    exact ⟨htext.symm, hd⟩
  · have hnew : corrected parser kinds fix d = { d with
        tree := parser.tree (correctedText kinds fix d), revision := d.revision + 1 } := by
      rw [corrected, if_neg hkeep]
    rw [hnew]
    refine ⟨rfl, rfl, ?_, ?_, fun _ _ => ⟨rfl, rfl⟩⟩
    · intro hfaulty
      exact absurd (Or.inl (hfaults.mpr hfaulty)) hkeep
    · intro hbreaks
      exact absurd (Or.inr (Or.inl hbreaks)) hkeep

theorem kind_of_mem_malformed {docs : List Document} {project : String} {f : Failure}
    (hf : f ∈ docs.filterMap (malformedFailure project)) : f.kind = .ruleEvaluationFailed := by
  obtain ⟨d, -, hd⟩ := List.mem_filterMap.mp hf
  obtain ⟨position, -, rfl⟩ := Option.map_eq_some_iff.mp hd
  rfl

theorem kind_of_mem_broken {docs : List Document} {project : String} {f : Failure}
    (hf : f ∈ docs.filterMap (brokenFailure parser kinds fix project)) :
    f.kind = .syntaxBroken := by
  obtain ⟨d, -, hd⟩ := List.mem_filterMap.mp hf
  rw [brokenFailure] at hd
  split at hd
  · cases hd
    rfl
  · cases hd

/-- A pass that is not interrupted gives every document without faults the corrected text, unless
that text has faults, and leaves all other documents as they are.  Its failures are the documents
with faults and those that would get some, one failure each; no edits collide or miss their
place. -/
theorem text_fidelity (hparser : parser.WellFormed) (projects : List Project)
    (hprojects : ∀ project ∈ projects, project.Regular parser) (kinds : List ItemKind)
    (rule : RuleId) (fix : FixId) (tool : ToolInfo) (base : Option Path) (stamp : Stamp) :
    ∃ outcome,
      (pass parser kinds tool base).run projects rule fix .fix stamp .never = .ok outcome ∧
      List.Forall₂
        (fun before after => after.name = before.name ∧ after.root = before.root ∧
          List.Forall₂ (Faithful parser kinds fix) before.documents after.documents)
        projects outcome.projects ∧
      outcome.report.failures = (projects.flatMap fun project =>
        project.documents.filterMap (malformedFailure project.name) ++
          project.documents.filterMap (brokenFailure parser kinds fix project.name)) ∧
      ∀ f ∈ outcome.report.failures,
        f.kind ≠ .overlappingEdits ∧ f.kind ≠ .nodeNotFound := by
  have hfailures : (projects.map (projectOutcome parser kinds rule fix)).flatMap
      ProjectOutcome.failures = projects.flatMap fun project =>
        project.documents.filterMap (malformedFailure project.name) ++
          project.documents.filterMap (brokenFailure parser kinds fix project.name) := by
    rw [List.flatMap_map]
    rfl
  refine ⟨_, run_standard hparser hprojects stamp, ?_, hfailures, ?_⟩
  · simp only [List.forall₂_map_right_iff, List.forall₂_same]
    intro project hproject
    refine ⟨rfl, rfl, ?_⟩
    simp only [projectOutcome, List.forall₂_map_right_iff, List.forall₂_same]
    intro d hd
    exact faithful_corrected hparser ((hprojects project hproject).parsed d hd)
  · intro f hf
    change f ∈ (projects.map (projectOutcome parser kinds rule fix)).flatMap
      ProjectOutcome.failures at hf
    rw [hfailures, List.mem_flatMap] at hf
    obtain ⟨project, -, hf⟩ := hf
    rcases List.mem_append.mp hf with hf | hf
    · rw [kind_of_mem_malformed hf]
      decide
    · rw [kind_of_mem_broken hf]
      decide

/-- A file with three items that lack their visibility, one inside another, and a file with
faults. -/
def nestedProject : Project :=
  ⟨"demo", ⟨"/demo"⟩,
    [.parse nestedParser "demo" ⟨"a.rs"⟩ nestedText, .parse nestedParser "demo" ⟨"b.rs"⟩ "struct"]⟩

theorem regular_nestedProject : ∀ project ∈ [nestedProject], project.Regular nestedParser := by
  intro project hproject
  rw [List.mem_singleton.mp hproject]
  refine ⟨?_, by decide +kernel⟩
  intro d hd
  simp only [nestedProject, List.mem_cons, List.not_mem_nil, or_false] at hd
  rcases hd with rfl | rfl
  · rfl
  · rfl

theorem text_fidelity_nested :
    ∃ outcome d e,
      (pass nestedParser ItemKind.all default none).run [nestedProject] .missingVisibility .makePub
        .fix default .never = .ok outcome ∧
      outcome.projects.map Project.documents = [[d, e]] ∧
      d.text = "pub fn f()\x7bmod m\x7bpub struct A;\x7d\x7dpub struct B;" ∧
      e = .parse nestedParser "demo" ⟨"b.rs"⟩ "struct" := by
  obtain ⟨outcome, hrun, hprojects, -⟩ := text_fidelity nestedParser_wellFormed [nestedProject]
    regular_nestedProject ItemKind.all .missingVisibility .makePub default none default
  obtain ⟨after, rest, ⟨-, -, hdocs⟩, hrest, hafter⟩ := List.forall₂_cons_left_iff.mp hprojects
  obtain ⟨d, others, hfine, hothers, hdocuments⟩ := List.forall₂_cons_left_iff.mp hdocs
  obtain ⟨e, none, hfaulty, hnone, rfl⟩ := List.forall₂_cons_left_iff.mp hothers
  rw [List.forall₂_nil_left_iff.mp hrest] at hafter
  rw [List.forall₂_nil_left_iff.mp hnone] at hdocuments
  have htext := hfine.text (by decide +kernel) (by decide +kernel)
  refine ⟨outcome, d, e, hrun, ?_, ?_, hfaulty.faulty (by decide +kernel)⟩
  · rw [hafter, List.map_singleton, hdocuments]
  · rw [htext.1]
    decide +kernel

end Visibility

end PubSweep
