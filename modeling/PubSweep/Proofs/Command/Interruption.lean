import PubSweep.Proofs.Command.Recheck
import PubSweep.Proofs.Pass.Cancellation

/-!
What an interrupted command leaves behind.

A run can be found cancelled before its pass begins, and then nothing is written.  A pass that is
cancelled later has an outcome like any other, in which nothing was done; its report is written, and
no document.  `interrupted_leaves_report` follows both ways through both commands.
-/

namespace PubSweep

open Files Syntax

namespace Command

/-- The run is found cancelled before its pass begins. -/
def StoppedEarly (env : Environment) (verb : Verb) : Prop :=
  env.interrupt .load = true ∨ (verb = .fix ∧ env.interrupt .command = true)

/-- The file system behind the report of a pass that was cancelled. -/
def LeavesReport (plan : Plan) (fs files : FileSystem) : Prop :=
  ∃ (outcome : Outcome) (projects : List Project), outcome.Untouched projects ∧
    (perform attempt (outcome.artifactCalls plan.outDir) fs).error = none ∧
    files = reported plan outcome fs

/-- In a file system without links, the files of the report are there, and all others as before. -/
theorem LeavesReport.grown {plan : Plan} {fs files : FileSystem} (h : LeavesReport plan fs files)
    (hplain : fs.Plain) :
    Grown (fun name => ∃ s ∈ artifactNames, name = encode s) fs files ∧
      ∀ name ∈ artifactNames, IsWritten files (plan.outDir.join ⟨name⟩) := by
  obtain ⟨outcome, -, -, hdone, rfl⟩ := h
  refine ⟨artifactCalls_grown hplain hdone, ?_⟩
  intro name hname
  obtain ⟨text, hcall⟩ := exists_mem_artifactCalls outcome plan.outDir name hname
  exact isWritten_of_perform hplain hdone hcall

section

variable {env : Environment} {fs : FileSystem} {plan : Plan}

theorem runSource_eq_ok {parser : Parser} {settings : Settings} {mode : Mode} {stamp : Stamp}
    {interrupt : Interrupt} {source : Except String (List Project)} {o : Outcome}
    (h : runSource parser settings toolInfo mode stamp interrupt source = .ok o) :
    interrupt .load = false ∧ ∃ projects, source = .ok projects ∧
      (settings.pass parser toolInfo).run projects Settings.rule settings.fix mode stamp interrupt =
        .ok o := by
  simp only [runSource] at h
  split at h
  case isTrue => cases h
  case isFalse hload =>
    refine ⟨by simpa using hload, ?_⟩
    split at h
    case h_1 => cases h
    case h_2 projects =>
      refine ⟨projects, rfl, ?_⟩
      split at h
      case h_1 hrun =>
        cases h
        exact hrun
      case h_2 => cases h

/-- A run without an outcome was found cancelled if the command ends so. -/
theorem stopped_of_refused {parser : Parser} {settings : Settings} {mode : Mode} {stamp : Stamp}
    {interrupt : Interrupt} {source : Except String (List Project)} {e : RunError}
    (hrun : runSource parser settings toolInfo mode stamp interrupt source = .error e)
    (h : (refused fs e).exitCode = exitCancelled) :
    interrupt .load = true ∧ (refused fs e).files = fs := by
  cases e with
  | internal message => cases h
  | cancelled =>
      refine ⟨?_, rfl⟩
      simp only [runSource] at hrun
      split at hrun
      · assumption
      · split at hrun
        · cases hrun
        · split at hrun <;> cases hrun

/-- A command that writes its report ends as cancelled if its pass was, and has then written nothing
else; what comes next never ends so. -/
theorem leavesReport_of_withArtifacts {outcome : Outcome} {stdout : String}
    {next : FileSystem → Ending} (hnext : ∀ fs, (next fs).exitCode ≠ exitCancelled)
    {projects : List Project}
    (huntouched : outcome.report.cancelled = true → outcome.Untouched projects)
    (h : (withArtifacts plan fs outcome stdout next).exitCode = exitCancelled) :
    LeavesReport plan fs (withArtifacts plan fs outcome stdout next).files := by
  rw [withArtifacts] at h ⊢
  rcases herror : (perform attempt (outcome.artifactCalls plan.outDir) fs).error with
    _ | ⟨call, e⟩
  · simp only [herror] at h ⊢
    split at h
    case isTrue hcancelled =>
      simp only [hcancelled, if_true]
      exact ⟨outcome, projects, huntouched hcancelled, herror, rfl⟩
    case isFalse => exact absurd h (hnext _)
  · simp only [herror] at h
    cases h

/-- A check that ends as cancelled was stopped early, or leaves its report. -/
theorem check_cancelled (h : (check env fs plan).exitCode = exitCancelled) :
    (StoppedEarly env .check ∧ (check env fs plan).files = fs) ∨
      (¬ StoppedEarly env .check ∧ LeavesReport plan fs (check env fs plan).files) := by
  simp only [check] at h ⊢
  rcases hrun : runSource env.parser plan.settings toolInfo .check env.stamp env.interrupt
      (plan.load env fs) with e | outcome
  · simp only [hrun] at h ⊢
    obtain ⟨hload, hfiles⟩ := stopped_of_refused hrun h
    exact Or.inl ⟨Or.inl hload, hfiles⟩
  · simp only [hrun] at h ⊢
    obtain ⟨hload, projects, -, hpass⟩ := runSource_eq_ok hrun
    refine Or.inr ⟨by simp [StoppedEarly, hload],
      leavesReport_of_withArtifacts ?_ (Pass.untouched_of_run hpass) h⟩
    intro fs
    dsimp only
    split <;> decide

theorem exitCode_fixed (outcome : Outcome) (stdout : String) (fs : FileSystem) :
    (fixed outcome stdout fs).exitCode ≠ exitCancelled := by
  rw [fixed]
  dsimp only
  split <;> decide

/-- So does a fix. -/
theorem fix_cancelled (h : (fix env fs plan).exitCode = exitCancelled) :
    (StoppedEarly env .fix ∧ (fix env fs plan).files = fs) ∨
      (¬ StoppedEarly env .fix ∧ LeavesReport plan fs (fix env fs plan).files) := by
  rcases hcommand : env.interrupt .command with _ | _
  · rcases hprojects : plan.load env fs with e | before
    · simp only [fix, hcommand, hprojects] at h
      cases h
    · rcases hrun : runSource env.parser plan.settings toolInfo .fix env.stamp env.interrupt
          (.ok (sortByRoot before)) with e | outcome
      · simp only [fix, hcommand, hprojects, hrun] at h ⊢
        obtain ⟨hload, hfiles⟩ := stopped_of_refused hrun h
        exact Or.inl ⟨Or.inl hload, hfiles⟩
      · simp only [fix, hcommand, hprojects, hrun, Bool.false_eq_true, if_false] at h ⊢
        obtain ⟨hload, projects, -, hpass⟩ := runSource_eq_ok hrun
        refine Or.inr ⟨by simp [StoppedEarly, hload, hcommand],
          leavesReport_of_withArtifacts ?_ (Pass.untouched_of_run hpass) h⟩
        intro fs
        split
        · split
          · exact (by decide : exitError ≠ exitCancelled)
          · exact exitCode_fixed _ _ _
        · exact exitCode_fixed _ _ _
  · simp only [fix, hcommand]
    exact Or.inl ⟨Or.inr ⟨rfl, hcommand⟩, rfl⟩

end

/-- A command that ends as cancelled, wherever it was interrupted.  If it was stopped early, the
file system is as it was.  If not, the report of a pass in which nothing was done was written: in a
file system without links, its three files are there, and no other file is new or has other
contents. -/
theorem interrupted_leaves_report (env : Environment) (fs : FileSystem) (verb : Verb)
    (given : Given) (h : (run env fs verb given).exitCode = exitCancelled) :
    (StoppedEarly env verb ∧ (run env fs verb given).files = fs) ∨
      (¬ StoppedEarly env verb ∧ ∃ plan, planOf fs given = .ok plan ∧
        LeavesReport plan fs (run env fs verb given).files ∧
        (fs.Plain →
          Grown (fun name => ∃ s ∈ artifactNames, name = encode s) fs
              (run env fs verb given).files ∧
            ∀ name ∈ artifactNames,
              IsWritten (run env fs verb given).files (plan.outDir.join ⟨name⟩))) := by
  suffices hends : (StoppedEarly env verb ∧ (run env fs verb given).files = fs) ∨
      (¬ StoppedEarly env verb ∧ ∃ plan, planOf fs given = .ok plan ∧
        LeavesReport plan fs (run env fs verb given).files) by
    rcases hends with hearly | ⟨hlate, plan, hplan, hleaves⟩
    · exact Or.inl hearly
    · exact Or.inr ⟨hlate, plan, hplan, hleaves, hleaves.grown⟩
  rcases hplan : planOf fs given with e | plan
  · cases verb <;> simp only [run, hplan] at h <;> cases h
  · cases verb with
    | listFixes => cases h
    | check =>
        simp only [run, hplan] at h ⊢
        exact (check_cancelled h).imp_right fun hlate => ⟨hlate.1, plan, rfl, hlate.2⟩
    | fix =>
        simp only [run, hplan] at h ⊢
        exact (fix_cancelled h).imp_right fun hlate => ⟨hlate.1, plan, rfl, hlate.2⟩

/-- A project with one document. -/
def loneTree : Entry :=
  .directory [(encode "Cargo.toml", .file []), (encode "a.rs", .file (encode "struct A;"))]

/-- The run that is cancelled when its projects have been loaded. -/
def afterLoading : Interrupt
  | .command | .load => false
  | .scan _ _ | .apply _ _ => true

/-- A fix that is applied is interrupted behind its loading: it leaves its report. -/
theorem interrupted_leaves_report_lone :
    let env : Environment := ⟨Visibility.structParser, default, afterLoading⟩
    let given : Given := { outDir := some "out", apply := true }
    (run env ⟨loneTree, []⟩ .fix given).exitCode = exitCancelled ∧
      ¬ StoppedEarly env .fix ∧ ∃ plan, planOf ⟨loneTree, []⟩ given = .ok plan ∧
        LeavesReport plan ⟨loneTree, []⟩ (run env ⟨loneTree, []⟩ .fix given).files := by
  intro env given
  have hplan := planOf_of_read?_eq_none ⟨loneTree, []⟩ given (by decide +kernel) rfl rfl
  have hcode : (run env ⟨loneTree, []⟩ .fix given).exitCode = exitCancelled := by
    simp only [run, hplan]
    decide +kernel
  have hlate : ¬ StoppedEarly env .fix := by
    rw [StoppedEarly]
    decide
  rcases interrupted_leaves_report env ⟨loneTree, []⟩ .fix given hcode with hearly | hleaves
  · exact absurd hearly.1 hlate
  · obtain ⟨-, plan, hplan, hreport, -⟩ := hleaves
    exact ⟨hcode, hlate, plan, hplan, hreport⟩

/-- Both commands can end as cancelled and have written files. -/
theorem interrupted_has_written :
    let fs : FileSystem := ⟨loneTree, []⟩
    let patch : Path := ⟨"target/visfix/patch.diff"⟩
    let ending verb := run ⟨Visibility.structParser, default, afterLoading⟩ fs verb {}
    fs.read? patch = none ∧
      ((ending .check).exitCode = exitCancelled ∧ (ending .check).files.read? patch = some []) ∧
      ((ending .fix).exitCode = exitCancelled ∧ (ending .fix).files.read? patch = some []) := by
  have hplan := planOf_of_read?_eq_none ⟨loneTree, []⟩ {} (by decide +kernel) rfl rfl
  simp only [run, hplan]
  decide +kernel

end Command

end PubSweep
