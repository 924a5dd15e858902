import PubSweep.Proofs.Pass.Fidelity

/-!
A second pass over the projects of a first one.

In a corrected document no item is left that lacks a visibility (`quiet_corrected`), and a pass over
such documents does nothing (`run_of_quiet`).
-/

namespace PubSweep

open Syntax

theorem Pass.pairs_self (projects : List Project) :
    pairs projects projects =
      projects.flatMap fun project => project.documents.map fun d => (project, project, d, d) := by
  simp only [pairs, List.zip, List.zipWith_self, List.flatMap_map, List.map_map, Function.comp_def]

/-- Between projects and themselves there is no difference. -/
theorem Pass.patch_self (pass : Pass) (projects : List Project) :
    pass.patch projects projects = "" := by
  simp only [patch]
  rw [List.filterMap_eq_nil_iff.mpr]
  · rfl
  · intro pair hpair
    rw [pairs_self, List.mem_flatMap] at hpair
    obtain ⟨project, -, hpair⟩ := hpair
    obtain ⟨d, -, rfl⟩ := List.mem_map.mp hpair
    exact if_pos (by simp [Document.isShared])

/-- A total of nothings is nothing. -/
theorem Report.sum_eq_zero {reports : List ProjectReport} {count : ProjectReport → Nat}
    (h : ∀ r ∈ reports, count r = 0) :
    reports.foldr (fun r n => count r + n) 0 % wordSize = 0 := by
  have hsum : reports.foldr (fun r n => count r + n) 0 = 0 := by
    induction reports with
    | nil => rfl
    | cons r reports ih =>
        rw [List.foldr_cons, h r List.mem_cons_self,
          ih fun other hother => h other (List.mem_cons_of_mem r hother)]
  rw [hsum, Nat.zero_mod]

namespace Visibility

section

variable {parser : Parser} {kinds : List ItemKind} {d : Document}

/-- A document with faults, or without an item that lacks a visibility. -/
def Quiet (kinds : List ItemKind) (d : Document) : Prop :=
  d.tree.hasErrors = true ∨ anchors kinds d.tree.root = []

theorem quiet_corrected (hparser : parser.WellFormed) (hreads : ReadsVisibility parser)
    (hd : d.ParsedBy parser) (kinds : List ItemKind) (fix : FixId) :
    Quiet kinds (corrected parser kinds fix d) := by
  cases herrors : d.tree.hasErrors with
  | true =>
      rw [corrected_of_faulty herrors]
      exact Or.inl herrors
  | false =>
      right
      have htree := tree_corrected hreads hd herrors kinds fix
      have hparse := parse_correctedText hreads hd herrors kinds fix
      have hroot : (corrected parser kinds fix d).tree.root =
          publish fix (anchors kinds d.tree.root) [] d.tree.root := by
        rw [htree, SyntaxTree.root, Parser.tree, hparse]
      rw [hroot, anchors_publish kinds fix _ (hd.shaped hparser herrors)]
      simp

theorem corrected_of_quiet (h : Quiet kinds d) (fix : FixId) :
    corrected parser kinds fix d = d := by
  rcases h with hfaulty | hnone
  · exact corrected_of_faulty hfaulty kinds fix
  · rw [corrected, if_pos (Or.inr (Or.inr (correctedText_of_anchors_eq_nil hnone)))]

theorem findings_of_quiet (h : Quiet kinds d) :
    (if d.tree.hasErrors then [] else findings kinds d) = [] := by
  rcases h with hfaulty | hnone
  · rw [if_pos hfaulty]
  · have hlength := length_findings kinds d
    rw [hnone, List.length_nil] at hlength
    rw [List.eq_nil_of_length_eq_zero hlength, ite_self]

theorem parsedBy_corrected (hd : d.ParsedBy parser) (kinds : List ItemKind) (fix : FixId) :
    (corrected parser kinds fix d).ParsedBy parser := by
  rw [corrected]
  split
  · exact hd
  · rfl

theorem id_corrected (parser : Parser) (kinds : List ItemKind) (fix : FixId) (d : Document) :
    (corrected parser kinds fix d).id = d.id := by
  rw [corrected]
  split <;> rfl

/-- A correction keeps the failure of a document with faults, and makes no new one. -/
theorem malformedFailure_corrected (hreads : ReadsVisibility parser) (hd : d.ParsedBy parser)
    (kinds : List ItemKind) (fix : FixId) (project : String) :
    malformedFailure project (corrected parser kinds fix d) = malformedFailure project d := by
  cases herrors : d.tree.hasErrors with
  | true => rw [corrected_of_faulty herrors]
  | false =>
      have hnew : (corrected parser kinds fix d).tree.hasErrors = false := by
        rw [tree_corrected hreads hd herrors, SyntaxTree.hasErrors, Parser.tree,
          parse_correctedText hreads hd herrors]
      rw [malformedFailure, malformedFailure, SyntaxTree.firstError_eq_none hnew,
        SyntaxTree.firstError_eq_none herrors]
      rfl

end

variable {parser : Parser} {kinds : List ItemKind} {rule : RuleId} {project : Project}

theorem regular_projectOutcome (hproject : project.Regular parser) (kinds : List ItemKind)
    (rule : RuleId) (fix : FixId) :
    (projectOutcome parser kinds rule fix project).project.Regular parser := by
  constructor
  · intro d hd
    obtain ⟨old, hold, rfl⟩ := List.mem_map.mp hd
    exact parsedBy_corrected (hproject.parsed old hold) kinds fix
  · have hids : (project.documents.map (corrected parser kinds fix)).map Document.id =
        project.documents.map Document.id := by
      rw [List.map_map]
      exact List.map_congr_left fun d _ => id_corrected parser kinds fix d
    change ((project.documents.map (corrected parser kinds fix)).map Document.id).Nodup
    rw [hids]
    exact hproject.distinct

/-- In a project of quiet documents nothing is found, and nothing changes. -/
theorem projectOutcome_of_quiet (hparser : parser.WellFormed) (hproject : project.Regular parser)
    (hquiet : ∀ d ∈ project.documents, Quiet kinds d) (rule : RuleId) (fix : FixId) :
    (projectOutcome parser kinds rule fix project).project = project ∧
      (projectOutcome parser kinds rule fix project).findings = [] ∧
      (projectOutcome parser kinds rule fix project).report.findings = 0 ∧
      (projectOutcome parser kinds rule fix project).report.editsAccepted = 0 := by
  have hdocuments : project.documents.map (corrected parser kinds fix) = project.documents := by
    rw [List.map_congr_left (g := id) fun d hd => corrected_of_quiet (hquiet d hd) fix, List.map_id]
  have hfindings : (collected kinds rule fix project).findings = [] := by
    rw [findings_collected kinds rule fix hparser hproject, List.flatMap_eq_nil_iff]
    exact fun d hd => findings_of_quiet (hquiet d hd)
  refine ⟨?_, hfindings, ?_, batch_size_of_findings_eq_nil rule hfindings⟩
  · rw [projectOutcome, hdocuments]
  · change (collected kinds rule fix project).findings.length = 0
    rw [hfindings, List.length_nil]

/-- With a parser that reads visibilities, only documents with faults are failures. -/
theorem failures_projectOutcome (hreads : ReadsVisibility parser)
    (hproject : project.Regular parser) (kinds : List ItemKind) (rule : RuleId) (fix : FixId) :
    (projectOutcome parser kinds rule fix project).failures =
      project.documents.filterMap (malformedFailure project.name) := by
  have hbroken : project.documents.filterMap (brokenFailure parser kinds fix project.name) =
      [] := by
    rw [List.filterMap_eq_nil_iff]
    intro d hd
    rw [brokenFailure, if_neg (not_breaks hreads (hproject.parsed d hd) kinds fix)]
  rw [projectOutcome, hbroken, List.append_nil]

/-- A second pass over a project has the failures of the first one. -/
theorem failures_second (hreads : ReadsVisibility parser) (hproject : project.Regular parser)
    (kinds : List ItemKind) (rule : RuleId) (f g : FixId) :
    (projectOutcome parser kinds rule g
        (projectOutcome parser kinds rule f project).project).failures =
      (projectOutcome parser kinds rule f project).failures := by
  rw [failures_projectOutcome hreads (regular_projectOutcome hproject kinds rule f),
    failures_projectOutcome hreads hproject]
  change (project.documents.map (corrected parser kinds f)).filterMap
    (malformedFailure project.name) = _
  rw [List.filterMap_map]
  apply List.filterMap_congr
  intro d hd
  exact malformedFailure_corrected hreads (hproject.parsed d hd) kinds f project.name

/-- A pass over quiet documents finds nothing and changes nothing. -/
theorem run_of_quiet (hparser : parser.WellFormed) {projects : List Project}
    (hprojects : ∀ project ∈ projects, project.Regular parser)
    (hquiet : ∀ project ∈ projects, ∀ d ∈ project.documents, Quiet kinds d) (rule : RuleId)
    (fix : FixId) (tool : ToolInfo) (base : Option Path) (stamp : Stamp) :
    ∃ outcome,
      (pass parser kinds tool base).run projects rule fix .fix stamp .never = .ok outcome ∧
      outcome.findings = [] ∧
      (∀ r ∈ outcome.report.projects, r.findings = 0 ∧ r.editsAccepted = 0) ∧
      outcome.report.summary.findings = 0 ∧ outcome.report.summary.editsAccepted = 0 ∧
      outcome.patch = "" ∧ outcome.projects = projects ∧
      outcome.report.failures = projects.flatMap fun project =>
        (projectOutcome parser kinds rule fix project).failures := by
  have hnone := fun project hproject =>
    projectOutcome_of_quiet hparser (hprojects project hproject) (hquiet project hproject) rule fix
  have hsame : (projects.map (projectOutcome parser kinds rule fix)).map ProjectOutcome.project =
      projects := by
    rw [List.map_map]
    exact (List.map_congr_left (g := id) fun project hproject => (hnone project hproject).1).trans
      (List.map_id projects)
  have hreports : ∀ r ∈ (projects.map (projectOutcome parser kinds rule fix)).map
      ProjectOutcome.report, r.findings = 0 ∧ r.editsAccepted = 0 := by
    rw [List.map_map]
    intro r hr
    obtain ⟨project, hproject, rfl⟩ := List.mem_map.mp hr
    exact (hnone project hproject).2.2
  refine ⟨_, run_standard hparser hprojects stamp, ?_, hreports, ?_, ?_, ?_, hsame, ?_⟩
  · rw [List.flatMap_eq_nil_iff]
    intro outcome houtcome
    obtain ⟨project, hproject, rfl⟩ := List.mem_map.mp houtcome
    exact (hnone project hproject).2.1
  · exact Report.sum_eq_zero fun r hr => (hreports r hr).1
  · exact Report.sum_eq_zero fun r hr => (hreports r hr).2
  · simp only [hsame]
    exact Pass.patch_self _ projects
  · exact List.flatMap_map _ _ projects

/-- A second pass over the projects of a first one, with the same kinds and any fix, finds nothing,
accepts no edits, and keeps all documents.  Its failures are those of documents with faults. -/
theorem second_pass_no_op (hparser : parser.WellFormed) (hreads : ReadsVisibility parser)
    (projects : List Project) (hprojects : ∀ project ∈ projects, project.Regular parser)
    (kinds : List ItemKind) (rule : RuleId) (f g : FixId) (tool tool' : ToolInfo)
    (base base' : Option Path) (stamp stamp' : Stamp) :
    ∃ first second,
      (pass parser kinds tool base).run projects rule f .fix stamp .never = .ok first ∧
      (pass parser kinds tool' base').run first.projects rule g .fix stamp' .never = .ok second ∧
      second.findings = [] ∧
      (∀ r ∈ second.report.projects, r.findings = 0 ∧ r.editsAccepted = 0) ∧
      second.report.summary.findings = 0 ∧ second.report.summary.editsAccepted = 0 ∧
      second.patch = "" ∧ second.projects = first.projects ∧
      second.report.failures =
        first.report.failures.filter (·.kind = .ruleEvaluationFailed) := by
  have hregular : ∀ project ∈ (projects.map (projectOutcome parser kinds rule f)).map
      ProjectOutcome.project, project.Regular parser := by
    rw [List.map_map]
    intro after hafter
    obtain ⟨project, hproject, rfl⟩ := List.mem_map.mp hafter
    exact regular_projectOutcome (hprojects project hproject) kinds rule f
  have hquiet : ∀ project ∈ (projects.map (projectOutcome parser kinds rule f)).map
      ProjectOutcome.project, ∀ d ∈ project.documents, Quiet kinds d := by
    rw [List.map_map]
    intro after hafter d hd
    obtain ⟨project, hproject, rfl⟩ := List.mem_map.mp hafter
    obtain ⟨old, hold, rfl⟩ := List.mem_map.mp hd
    exact quiet_corrected hparser hreads ((hprojects project hproject).parsed old hold) kinds f
  obtain ⟨second, hsecond, hfindings, hreports, htotal, hedits, hpatch, hsame, hfailures⟩ :=
    run_of_quiet hparser hregular hquiet rule g tool' base' stamp'
  refine ⟨_, second, run_standard hparser hprojects stamp, hsecond, hfindings, hreports, htotal,
    hedits, hpatch, hsame, ?_⟩
  have hkeep : ((projects.map (projectOutcome parser kinds rule f)).flatMap
      ProjectOutcome.failures).filter (·.kind = .ruleEvaluationFailed) =
        (projects.map (projectOutcome parser kinds rule f)).flatMap ProjectOutcome.failures := by
    rw [List.filter_eq_self]
    intro failure hfailure
    rw [List.flatMap_map, List.mem_flatMap] at hfailure
    obtain ⟨project, hproject, hfailure⟩ := hfailure
    rw [failures_projectOutcome hreads (hprojects project hproject)] at hfailure
    exact decide_eq_true (kind_of_mem_malformed hfailure)
  refine hfailures.trans (Eq.trans ?_ hkeep.symm)
  rw [List.map_map, List.flatMap_map, List.flatMap_map]
  apply List.flatMap_congr
  intro project hproject
  exact failures_second hreads (hprojects project hproject) kinds rule f g

theorem second_pass_no_op_nested :
    ∃ first second,
      (pass nestedParser ItemKind.all default none).run [nestedProject] .missingVisibility .makePub
        .fix default .never = .ok first ∧
      first.findings.length = 3 ∧
      (pass nestedParser ItemKind.all default none).run first.projects .missingVisibility
        .makePubCrate .fix default .never = .ok second ∧
      second.findings = [] ∧ second.projects = first.projects := by
  obtain ⟨first, second, hfirst, hsecond, hfindings, -, -, -, -, hsame, -⟩ :=
    second_pass_no_op nestedParser_wellFormed nestedParser_readsVisibility [nestedProject]
      regular_nestedProject ItemKind.all .missingVisibility .makePub .makePubCrate default default
      none none default default
  have hcount : ((pass nestedParser ItemKind.all default none).run [nestedProject]
      .missingVisibility .makePub .fix default .never).toOption.map (·.findings.length) =
        some 3 := by
    decide +kernel
  rw [hfirst] at hcount
  exact ⟨first, second, hfirst, Option.some.inj hcount, hsecond, hfindings, hsame⟩

end Visibility

end PubSweep
