import PubSweep.Command.Execute
import PubSweep.Proofs.Config
import PubSweep.Proofs.Files.Revisit
import PubSweep.Proofs.Pass.Idempotence
import PubSweep.Proofs.Pass.Prediction
import PubSweep.Proofs.Run

/-!
A check behind a fix.

A fix writes its report, then the corrected documents (`AppliedFix`).  The report goes unnoticed by
a check that comes next, even if it lies below the root; the check has the same configuration, loads
the corrected documents (`AppliedFix.reload`) and finds them quiet (`check_reread`).
`check_after_fix` says so of the two commands.
-/

namespace PubSweep

open Files Syntax

/-! ### Corrected documents that are read again -/

namespace Visibility

section

variable {parser : Parser} {kinds : List ItemKind} {fix : FixId}

theorem isRenewal_corrected : IsRenewal fun _ d => corrected parser kinds fix d where
  id _ d := id_corrected parser kinds fix d
  path _ d := by
    rw [corrected]
    split <;> rfl
  shared _ d hshared := by
    rw [corrected] at hshared ⊢
    split
    · rfl
    · rename_i hchanged
      rw [if_neg hchanged] at hshared
      simp [Document.isShared] at hshared

variable {p : Project} (hp : p.Regular parser)

include hp

theorem regular_reread :
    (reread parser (fun _ d => corrected parser kinds fix d) p).Regular parser := by
  constructor
  · intro d hd
    obtain ⟨old, -, rfl⟩ := List.mem_map.mp hd
    rfl
  · have hids : (reread parser (fun _ d => corrected parser kinds fix d) p).documents.map
        Document.id = p.documents.map Document.id := by
      rw [reread, List.map_map]
      rfl
    rw [hids]
    exact hp.distinct

/-- What is read again is quiet, -/
theorem quiet_reread (hparser : parser.WellFormed) (hreads : ReadsVisibility parser) {d : Document}
    (hd : d ∈ (reread parser (fun _ d => corrected parser kinds fix d) p).documents) :
    Quiet kinds d := by
  obtain ⟨old, hold, rfl⟩ := List.mem_map.mp hd
  have hparsed := hp.parsed old hold
  have hquiet := quiet_corrected hparser hreads hparsed kinds fix
  rw [Quiet, parsedBy_corrected hparsed kinds fix] at hquiet
  exact hquiet

/-- and has the faults that it had. -/
theorem malformed_reread (hreads : ReadsVisibility parser) :
    (reread parser (fun _ d => corrected parser kinds fix d) p).documents.filterMap
        (malformedFailure p.name) =
      p.documents.filterMap (malformedFailure p.name) := by
  rw [reread, List.filterMap_map]
  apply List.filterMap_congr
  intro d hd
  have hparsed := hp.parsed d hd
  have hpath : (corrected parser kinds fix d).path = d.path := isRenewal_corrected.path p d
  have htree : parser.tree (corrected parser kinds fix d).text =
      (corrected parser kinds fix d).tree :=
    (parsedBy_corrected hparsed kinds fix).symm
  rw [← malformedFailure_corrected hreads hparsed kinds fix p.name, Function.comp_apply,
    malformedFailure, malformedFailure, hpath, htree]
  rfl

end

/-- The outcome of a check. -/
theorem run_check_standard (parser : Parser) (kinds : List ItemKind) (tool : ToolInfo)
    (base : Option Path) (projects : List Project) (rule : RuleId) (fix : FixId) (stamp : Stamp) :
    (pass parser kinds tool base).run projects rule fix .check stamp .never =
      .ok ((pass parser kinds tool base).checkOutcome rule fix projects (collected kinds rule fix)
        stamp) := by
  have hworks : (pass parser kinds tool base).Works rule fix projects (collected kinds rule fix)
      fun q => appliedBatch parser (collected kinds rule fix q).batch q :=
    ⟨fun q _ => collect_standard kinds q rule fix, fun q _ => applyBatch_calm parser _ q⟩
  exact hworks.run_check stamp

section

variable {parser : Parser} (hparser : parser.WellFormed) (hreads : ReadsVisibility parser)
  {projects : List Project} (hprojects : ∀ p ∈ projects, p.Regular parser)

include hparser hreads hprojects

/-- A pass that corrects: its failures are the documents with faults. -/
theorem run_corrected (kinds : List ItemKind) (rule : RuleId) (fix : FixId) (tool : ToolInfo)
    (base : Option Path) (stamp : Stamp) :
    ∃ o, (pass parser kinds tool base).run projects rule fix .fix stamp .never = .ok o ∧
      o.projects = projects.map (renewed fun _ d => corrected parser kinds fix d) ∧
      o.report.cancelled = false ∧
      o.report.failures = projects.flatMap fun p =>
        p.documents.filterMap (malformedFailure p.name) := by
  refine ⟨_, run_standard hparser hprojects stamp, ?_, rfl, ?_⟩
  · rw [List.map_map]
    rfl
  · change (projects.map _).flatMap _ = _
    rw [List.flatMap_map]
    apply List.flatMap_congr
    intro p hp
    exact failures_projectOutcome hreads (hprojects p hp) kinds rule fix

/-- A check of the corrected documents when they are read again: it finds nothing, and its failures
are the same. -/
theorem check_reread (kinds : List ItemKind) (rule : RuleId) (fix fix' : FixId) (tool : ToolInfo)
    (base : Option Path) (stamp : Stamp) :
    ∃ o, (pass parser kinds tool base).run
          (projects.map (reread parser fun _ d => corrected parser kinds fix d)) rule fix' .check
          stamp .never = .ok o ∧
      o.findings = [] ∧ o.report.cancelled = false ∧
      o.report.failures = projects.flatMap fun p =>
        p.documents.filterMap (malformedFailure p.name) := by
  refine ⟨_, run_check_standard parser kinds tool base _ rule fix' stamp, ?_, rfl, ?_⟩
  · change (projects.map _).flatMap _ = []
    rw [List.flatMap_map, List.flatMap_eq_nil_iff]
    intro p hp
    rw [findings_collected kinds rule fix' hparser (regular_reread (hprojects p hp)),
      List.flatMap_eq_nil_iff]
    intro d hd
    exact findings_of_quiet (quiet_reread (hprojects p hp) hparser hreads hd)
  · change (projects.map _).flatMap _ = _
    rw [List.flatMap_map]
    apply List.flatMap_congr
    intro p hp
    rw [failures_collected kinds rule fix' hparser (regular_reread (hprojects p hp))]
    exact malformed_reread (hprojects p hp) hreads

end

end Visibility

/-! ### Loaded documents -/

section

variable {parser : Parser} {fs : FileSystem} {root : Path} {texts : List String}
  {projects : List Project} (hload : loadProjects parser fs root texts = .ok projects)

include hload

theorem regular_of_loadProjects (hids : ∀ p ∈ projects, (p.documents.map Document.id).Nodup) :
    ∀ p ∈ projects, p.Regular parser := by
  intro p hp
  refine ⟨?_, hids p hp⟩
  intro d hd
  obtain ⟨_, _, exclude, -, -, -, ⟨-, rfl⟩ | ⟨-, rfl⟩⟩ := exists_of_loadProjects hload
  · obtain ⟨v, -, -, hdocument⟩ := exists_source_of_mem hp hd
    obtain ⟨text, -, rfl⟩ := Option.map_eq_some_iff.mp hdocument
    rfl
  · cases hp

theorem sortByRoot_of_loadProjects (hplain : fs.Plain) : sortByRoot projects = projects := by
  obtain ⟨location, tree, exclude, hlocate, hentry, -, ⟨hdirectory, rfl⟩ | ⟨-, rfl⟩⟩ :=
    exists_of_loadProjects hload
  · have hholds := hplain.holds hlocate hentry hdirectory
    exact sortByRoot_of_pairwise (pairwise_projectsOf hholds.sound hdirectory hholds.text)
  · exact List.mergeSort_nil

end

/-- There are failures where a document has faults. -/
theorem Visibility.any_malformed {parser : Parser} (hparser : parser.WellFormed)
    {projects : List Project} (hprojects : ∀ p ∈ projects, p.Regular parser) :
    (!(projects.flatMap fun p => p.documents.filterMap (malformedFailure p.name)).isEmpty) =
      projects.any fun p => p.documents.any fun d => d.tree.hasErrors := by
  have hdocument : ∀ p ∈ projects, ∀ d ∈ p.documents,
      malformedFailure p.name d = none ↔ d.tree.hasErrors = false := by
    intro p hp d hd
    rw [malformedFailure, Option.map_eq_none_iff]
    rcases ((hprojects p hp).parsed d hd).clean_or_faulty hparser with
      ⟨hclean, -⟩ | ⟨hfaulty, position, hposition⟩
    · simp [hclean, SyntaxTree.firstError_eq_none hclean]
    · simp [hfaulty, hposition]
  rw [Bool.eq_iff_iff, Bool.not_eq_true', ← Bool.not_eq_true, List.isEmpty_iff, ← not_iff_not,
    Decidable.not_not, Bool.not_eq_true, List.any_eq_false, List.flatMap_eq_nil_iff]
  refine forall₂_congr fun p hp => ?_
  rw [List.filterMap_eq_nil_iff, Bool.not_eq_true, List.any_eq_false]
  refine forall₂_congr fun d hd => ?_
  rw [hdocument p hp d hd, Bool.not_eq_true]

namespace Command

/-- The projects that a command works on. -/
def projectsFor (env : Environment) (fs : FileSystem) (given : Given) :
    Except String (List Project) :=
  (planOf fs given).bind fun plan => plan.load env fs

/-- Options that name the same directory, kinds and patterns, and the same place for the report. -/
structure SameTarget (given again : Given) : Prop where
  root : again.root = given.root
  kinds : again.kinds = given.kinds
  exclude : again.exclude = given.exclude
  outDir : again.outDir = given.outDir

section

variable {env : Environment} {fs fs' : FileSystem} {given again : Given} {plan : Plan}
  {before : List Project} {outcome : Outcome}

theorem root_of_planOf (hplan : planOf fs given = .ok plan) :
    plan.settings.root = given.rootPath ∧ plan.apply = given.apply := by
  rw [planOf] at hplan
  split at hplan
  · cases hplan
  · cases hplan
    exact ⟨rfl, rfl⟩

/-- The plan in a directory without a configuration. -/
theorem planOf_of_read?_eq_none (fs : FileSystem) (given : Given)
    (hconfig : fs.read? (given.rootPath.join ⟨Config.fileName⟩) = none)
    (hkinds : given.kinds = []) (hexclude : given.exclude = []) :
    planOf fs given = .ok
      { settings := { root := given.rootPath, fix := given.fix.getD .standard }
        exclude := []
        outDir := given.outPath
        apply := given.apply } := by
  have hstandard : ItemKind.normalize ItemKind.standard = ItemKind.standard :=
    ItemKind.normalize_of_pairwise (by decide)
  rw [planOf, loadConfig, hconfig]
  simp only [MergedConfig.merge, hkinds, hexclude, List.isEmpty_nil, if_true, Option.getD_none,
    hstandard, Option.or_none, List.foldl_nil]

/-- With the same options and the same configuration, a command has the same plan but for its
fix. -/
theorem planOf_again (hplan : planOf fs given = .ok plan) (hsame : SameTarget given again)
    (hconfig : loadConfig fs' given.rootPath = loadConfig fs given.rootPath) :
    ∃ fix apply, planOf fs' again =
      .ok { plan with settings := { plan.settings with fix }, apply } := by
  have hroot : again.rootPath = given.rootPath := by
    rw [Given.rootPath, Given.rootPath, hsame.root]
  rw [planOf] at hplan ⊢
  rw [hroot, hconfig]
  split at hplan
  · cases hplan
  · rename_i config _
    cases hplan
    refine ⟨(again.fix.or config.fix).getD .standard, again.apply, ?_⟩
    simp only [MergedConfig.merge, hsame.kinds, hsame.exclude, Given.outPath, hsame.outDir, hroot]

/-- A command that can be carried out has projects to work on. -/
theorem exists_of_fix (hok : (run env fs .fix given).exitCode ≠ exitError)
    (hcalm : env.interrupt = .never) :
    ∃ plan before, planOf fs given = .ok plan ∧ plan.load env fs = .ok before := by
  rw [run] at hok
  rcases hplan : planOf fs given with e | plan
  · simp only [hplan] at hok
    exact absurd rfl hok
  · simp only [hplan, fix, hcalm, Interrupt.never] at hok
    rcases hload : plan.load env fs with e | before
    · simp only [hload] at hok
      exact absurd rfl hok
    · exact ⟨plan, before, rfl, hload⟩

/-- The file system behind a report. -/
def reported (plan : Plan) (o : Outcome) (fs : FileSystem) : FileSystem :=
  (perform attempt (o.artifactCalls plan.outDir) fs).state

section

variable (hplan : planOf fs given = .ok plan) (hload : plan.load env fs = .ok before)

include hplan hload

/-- A fix that is applied and can be carried out has written its report, and then its documents. -/
theorem fix_eq_fixed (hok : (run env fs .fix given).exitCode ≠ exitError)
    (hcalm : env.interrupt = .never) (happly : plan.apply = true)
    (hrun : runSource env.parser plan.settings toolInfo .fix env.stamp env.interrupt
      (.ok (sortByRoot before)) = .ok outcome)
    (hcancelled : outcome.report.cancelled = false) :
    (perform attempt (outcome.artifactCalls plan.outDir) fs).error = none ∧
      (perform attempt (outcome.documentCalls before) (reported plan outcome fs)).error = none ∧
      ∃ text, run env fs .fix given = fixed outcome text
        (perform attempt (outcome.documentCalls before) (reported plan outcome fs)).state := by
  have hnever : env.interrupt .command = false := by
    rw [hcalm]
    rfl
  simp only [run, hplan, fix, hnever, hload, hrun, withArtifacts, hcancelled, happly] at hok ⊢
  rcases hartifacts : (perform attempt (outcome.artifactCalls plan.outDir) fs).error with
    _ | ⟨call, e⟩
  · simp only [hartifacts, Bool.false_eq_true, if_false, if_true] at hok ⊢
    rcases hdocuments : (perform attempt (outcome.documentCalls before)
        (reported plan outcome fs)).error with _ | ⟨call, e⟩
    · rw [reported] at hdocuments
      simp only [hdocuments]
      exact ⟨trivial, trivial, _, rfl⟩
    · rw [reported] at hdocuments
      simp only [hdocuments] at hok
      exact absurd rfl hok
  · simp only [hartifacts] at hok
    exact absurd rfl hok

/-- A check that can write its report. -/
theorem check_eq
    (hrun : runSource env.parser plan.settings toolInfo .check env.stamp env.interrupt
      (.ok before) = .ok outcome)
    (hcancelled : outcome.report.cancelled = false)
    (hartifacts : (perform attempt (outcome.artifactCalls plan.outDir) fs).error = none) :
    run env fs .check given =
      { exitCode :=
          if outcome.hasFindings || outcome.report.hasFailures then exitFindings else exitOk
        stdout := Finding.renderAll outcome.findings
        stderr := failureLines outcome.report.failures
        files := reported plan outcome fs } := by
  simp only [run, hplan, check, hload, hrun, withArtifacts, hcancelled, hartifacts]
  rfl

end

end

/-! ### Names that go unnoticed -/

/-- Source files have names that end with `s`. -/
theorem not_isSourceName {s : String} (h : s.toList.getLast? ≠ some 's') :
    ¬ IsSourceName (encode s) := by
  rintro ⟨stem, hstem⟩
  apply h
  rw [encode_injective hstem]
  simp

/-- A report is not among the files that loading looks at. -/
theorem not_artifact_of_matters {name : FileName} (h : Matters name) :
    ¬ ∃ s ∈ artifactNames, name = encode s := by
  rintro ⟨s, hs, rfl⟩
  have hnames : ∀ s ∈ artifactNames, s ≠ manifestName ∧ s.toList.getLast? ≠ some 's' := by decide
  rcases h with hmanifest | hsource
  · exact (hnames s hs).1 (encode_injective hmanifest)
  · exact not_isSourceName (hnames s hs).2 hsource

theorem loadConfig_congr {fs fs' : FileSystem} {root : Path}
    (h : fs'.read? (root.join ⟨Config.fileName⟩) = fs.read? (root.join ⟨Config.fileName⟩)) :
    loadConfig fs' root = loadConfig fs root := by
  rw [loadConfig, loadConfig, h]

theorem load_eq_ok_iff {env : Environment} {plan : Plan} {fs : FileSystem}
    {projects : List Project} :
    plan.load env fs = .ok projects ↔
      loadProjects env.parser fs plan.settings.root plan.exclude = .ok projects := by
  rw [Plan.load]
  rcases loadProjects env.parser fs plan.settings.root plan.exclude with e | found
  · simp [Except.mapError]
  · simp [Except.mapError]

theorem runSource_of_run {parser : Parser} {settings : Settings} {mode : Mode} {stamp : Stamp}
    {projects : List Project} {o : Outcome}
    (h : (Visibility.pass parser settings.kinds toolInfo (some settings.root)).run projects
      Settings.rule settings.fix mode stamp .never = .ok o) :
    runSource parser settings toolInfo mode stamp .never (.ok projects) = .ok o := by
  have hpass : settings.pass parser toolInfo =
      Visibility.pass parser settings.kinds toolInfo (some settings.root) := rfl
  simp only [runSource, hpass, h]
  rfl

/-! ### A fix that was applied -/

/-- The file system behind a report and the corrected documents. -/
def revised (plan : Plan) (before : List Project) (o : Outcome) (fs : FileSystem) : FileSystem :=
  (perform attempt (o.documentCalls before) (reported plan o fs)).state

/-- A fix that corrected what it loaded, and had no write refused. -/
structure AppliedFix (parser : Parser) (fs : FileSystem) (given : Given) (plan : Plan)
    (before : List Project) (outcome : Outcome) : Prop where
  planned : planOf fs given = .ok plan
  loaded : loadProjects parser fs plan.settings.root plan.exclude = .ok before
  regular : ∀ p ∈ before, p.Regular parser
  projects : outcome.projects = before.map
    (renewed fun _ d => Visibility.corrected parser plan.settings.kinds plan.settings.fix d)
  completed : outcome.report.cancelled = false
  failures : outcome.report.failures = before.flatMap fun p =>
    p.documents.filterMap (Visibility.malformedFailure p.name)
  artifacts : (perform attempt (outcome.artifactCalls plan.outDir) fs).error = none
  documents :
    (perform attempt (outcome.documentCalls before) (reported plan outcome fs)).error = none

section

variable {parser : Parser} (hparser : parser.WellFormed)
  (hreads : Visibility.ReadsVisibility parser) {fs : FileSystem} (hplain : fs.Plain)
  {given : Given}

include hparser hreads hplain

/-- A fix that is to be applied and can be carried out is applied. -/
theorem exists_appliedFix (happly : given.apply = true) {stamp : Stamp}
    (hids : ∀ before, projectsFor ⟨parser, stamp, .never⟩ fs given = .ok before →
      ∀ p ∈ before, (p.documents.map Document.id).Nodup)
    (hok : (run ⟨parser, stamp, .never⟩ fs .fix given).exitCode ≠ exitError) :
    ∃ plan before outcome text,
      projectsFor ⟨parser, stamp, .never⟩ fs given = .ok before ∧
      AppliedFix parser fs given plan before outcome ∧
      run ⟨parser, stamp, .never⟩ fs .fix given =
        fixed outcome text (revised plan before outcome fs) := by
  obtain ⟨plan, before, hplan, hload⟩ := exists_of_fix hok rfl
  have hbefore : projectsFor ⟨parser, stamp, .never⟩ fs given = .ok before := by
    rw [projectsFor, hplan]
    exact hload
  have hloaded := load_eq_ok_iff.mp hload
  have hregular := regular_of_loadProjects hloaded (hids before hbefore)
  obtain ⟨outcome, hrun, hprojects, hcompleted, hfailures⟩ := Visibility.run_corrected hparser
    hreads hregular plan.settings.kinds Settings.rule plan.settings.fix toolInfo
    (some plan.settings.root) stamp
  -- what is loaded is in order, so a fix and a check work on the same projects
  have hsource := runSource_of_run hrun
  rw [← sortByRoot_of_loadProjects hloaded hplain] at hsource
  obtain ⟨hartifacts, hdocuments, text, hfixed⟩ := fix_eq_fixed hplan hload hok rfl
    ((root_of_planOf hplan).2.trans happly) hsource hcompleted
  exact ⟨plan, before, outcome, text, hbefore, ⟨hplan, hloaded, hregular, hprojects, hcompleted,
    hfailures, hartifacts, hdocuments⟩, hfixed⟩

end

namespace AppliedFix

variable {parser : Parser} {fs : FileSystem} {given : Given} {plan : Plan} {before : List Project}
  {outcome : Outcome} (h : AppliedFix parser fs given plan before outcome)

include h

/-- It has failures where a document that was loaded has faults. -/
theorem hasFailures (hparser : parser.WellFormed) :
    outcome.report.hasFailures = before.any fun p => p.documents.any fun d => d.tree.hasErrors := by
  rw [Report.hasFailures, h.failures, Visibility.any_malformed hparser h.regular]

variable (hplain : fs.Plain)

include hplain

theorem grown_reported :
    Grown (fun name => ∃ s ∈ artifactNames, name = encode s) fs (reported plan outcome fs) :=
  artifactCalls_grown hplain h.artifacts

/-- The corrected documents are loaded behind it, and only they were written over the report. -/
theorem reload :
    loadProjects parser (revised plan before outcome fs) plan.settings.root plan.exclude =
        .ok (before.map (reread parser fun _ d =>
          Visibility.corrected parser plan.settings.kinds plan.settings.fix d)) ∧
      Grown IsSourceName (reported plan outcome fs) (revised plan before outcome fs) := by
  have hreported := h.grown_reported hplain
  have hloaded := loadProjects_grown hreported hplain (fun _ => not_artifact_of_matters) h.loaded
  have hcalls := documentCalls_eq h.projects fun hcancelled =>
    absurd (h.completed.symm.trans hcancelled) nofun
  exact loadProjects_renewal hreported.plain hloaded Visibility.isRenewal_corrected hcalls
    h.documents

/-- Neither the report nor a document is a configuration. -/
theorem loadConfig_revised :
    loadConfig (revised plan before outcome fs) given.rootPath =
      loadConfig fs given.rootPath := by
  obtain ⟨location, -, -, hlocate, -⟩ := exists_of_loadProjects h.loaded
  rw [(root_of_planOf h.planned).1] at hlocate
  have hreported := h.grown_reported hplain
  have hnames : ∀ s ∈ [Config.fileName], Path.IsName s := by decide
  have hartifact : ¬ ∃ s ∈ artifactNames, encode Config.fileName = encode s := by
    rintro ⟨s, hs, heq⟩
    have hne : ∀ s ∈ artifactNames, Config.fileName ≠ s := by decide
    exact hne s hs (encode_injective heq)
  have hbetween := hreported.read?_below hplain hlocate hnames rfl hartifact
  have hafter := (h.reload hplain).2.read?_below hreported.plain (hreported.locate hplain hlocate)
    hnames rfl (not_isSourceName (by decide))
  exact loadConfig_congr (hafter.trans hbetween)

/-- A check behind it that looks at the same things. -/
theorem check_revised (hparser : parser.WellFormed) (hreads : Visibility.ReadsVisibility parser)
    {again : Given} (hsame : SameTarget given again) (stamp : Stamp) :
    ∃ files, run ⟨parser, stamp, .never⟩ (revised plan before outcome fs) .check again =
      fixed outcome "" files := by
  obtain ⟨hreload, hwritten⟩ := h.reload hplain
  obtain ⟨fix, apply, hplan⟩ := planOf_again h.planned hsame (h.loadConfig_revised hplain)
  obtain ⟨second, hsecond, hnone, hcompleted, hfailures⟩ := Visibility.check_reread hparser hreads
    h.regular plan.settings.kinds Settings.rule plan.settings.fix fix toolInfo
    (some plan.settings.root) stamp
  have hchecked := @check_eq ⟨parser, stamp, .never⟩ _ again _ _ second hplan
    (load_eq_ok_iff.mpr hreload) (runSource_of_run hsecond) hcompleted
    (artifactCalls_again hplain h.artifacts hwritten second)
  rw [hchecked, Outcome.hasFindings, hnone, Report.hasFailures, hfailures, ← h.failures]
  exact ⟨_, rfl⟩

end AppliedFix

/-- A check behind a fix that was applied, with the same directory, kinds and patterns and the same
place for the report, and with a parser that reads visibilities.  A fix that could be carried out
ended well if no document has faults, and else with the code for findings; the check prints no
finding, has the same failures, and ends as the fix did. -/
theorem check_after_fix {parser : Parser} (hparser : parser.WellFormed)
    (hreads : Visibility.ReadsVisibility parser) (fs : FileSystem)
    (hsound : fs.top.isSound = true) (hlinks : ∀ l t, fs.top.get? l ≠ some (.link t))
    (given : Given) (happly : given.apply = true) (stamp : Stamp)
    (hids : ∀ before, projectsFor ⟨parser, stamp, .never⟩ fs given = .ok before →
      ∀ p ∈ before, (p.documents.map Document.id).Nodup)
    (hok : (run ⟨parser, stamp, .never⟩ fs .fix given).exitCode ≠ exitError) :
    (∃ before, projectsFor ⟨parser, stamp, .never⟩ fs given = .ok before ∧
      (run ⟨parser, stamp, .never⟩ fs .fix given).exitCode =
        if before.any fun p => p.documents.any fun d => d.tree.hasErrors then exitFindings
        else exitOk) ∧
      ∀ (again : Given) (stamp' : Stamp), SameTarget given again →
        let fixed := run ⟨parser, stamp, .never⟩ fs .fix given
        let checked := run ⟨parser, stamp', .never⟩ fixed.files .check again
        checked.stdout = "" ∧ checked.exitCode = fixed.exitCode ∧
          checked.stderr = fixed.stderr := by
  have hplain : fs.Plain := ⟨hsound, hlinks⟩
  obtain ⟨plan, before, outcome, text, hbefore, happlied, hfixed⟩ :=
    exists_appliedFix hparser hreads hplain happly hids hok
  refine ⟨⟨before, hbefore, ?_⟩, ?_⟩
  · rw [hfixed, fixed, happlied.hasFailures hparser]
  · intro again stamp' hsame
    obtain ⟨files, hchecked⟩ := happlied.check_revised hplain hparser hreads hsame stamp'
    rw [hfixed]
    dsimp only [fixed]
    rw [hchecked]
    exact ⟨rfl, rfl, rfl⟩

/-- The report is written beside the document of the first project. -/
theorem check_after_fix_inner :
    let fixed := run ⟨Visibility.structParser, default, .never⟩ ⟨innerTree, []⟩ .fix
      { outDir := some ".", apply := true }
    let checked := run ⟨Visibility.structParser, default, .never⟩ fixed.files .check
      { outDir := some ".", fix := some .makePubCrate }
    (fixed.exitCode = exitOk ∧ fixed.files.read? ⟨"a.rs"⟩ = some (encode "pub struct A;") ∧
        fixed.files.read? ⟨"member/a.rs"⟩ = some (encode "pub struct A;")) ∧
      checked.stdout = "" ∧ checked.exitCode = exitOk ∧ checked.stderr = fixed.stderr := by
  intro fixed checked
  have hplan := planOf_of_read?_eq_none ⟨innerTree, []⟩ { outDir := some ".", apply := true }
    (by decide +kernel) rfl rfl
  have hfixed : fixed.exitCode = exitOk ∧
      fixed.files.read? ⟨"a.rs"⟩ = some (encode "pub struct A;") ∧
      fixed.files.read? ⟨"member/a.rs"⟩ = some (encode "pub struct A;") := by
    simp only [fixed, run, hplan, fix, Plan.load, Given.rootPath, Option.getD_none,
      loadProjects_innerTree, Except.mapError, sortByRoot_innerProjects]
    decide +kernel
  have hids : ∀ before, projectsFor ⟨Visibility.structParser, default, .never⟩ ⟨innerTree, []⟩
      { outDir := some ".", apply := true } = .ok before →
        ∀ p ∈ before, (p.documents.map Document.id).Nodup := by
    intro before hbefore
    rw [projectsFor, hplan] at hbefore
    cases hbefore.symm.trans (congrArg (Except.mapError LoadError.message) loadProjects_innerTree)
    exact distinct_innerProjects
  obtain ⟨-, hagain⟩ := check_after_fix Visibility.structParser_wellFormed
    Visibility.structParser_readsVisibility ⟨innerTree, []⟩ rfl innerTree_ne_link
    { outDir := some ".", apply := true } rfl default hids (by rw [hfixed.1]; decide)
  obtain ⟨hstdout, hsame, hstderr⟩ := hagain { outDir := some ".", fix := some .makePubCrate }
    default ⟨rfl, rfl, rfl, rfl⟩
  exact ⟨hfixed, hstdout, hsame.trans hfixed.1, hstderr⟩

end Command

end PubSweep
