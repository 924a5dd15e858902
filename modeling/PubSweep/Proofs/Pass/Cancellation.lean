import PubSweep.Output
import PubSweep.Proofs.Pass.Workers

/-!
Passes that are interrupted.

Every point at which a pass asks whether it was cancelled may answer as it likes, whatever the
others answer, and workers may come to these points in any order.  `all_or_nothing` says that the
pass then still gives the outcome of the pass that is not interrupted, or one in which nothing was
done.
-/

namespace PubSweep

open Syntax

namespace Collector

variable {c : Collector} {rule : RuleId} {fix : FixId}

theorem collect_all_or_none (h : c.refusal rule fix = none) (project : Project) :
    ∃ collection, c.collect project rule fix (fun _ => false) = .ok collection ∧
      ∀ interrupted, c.collect project rule fix interrupted = .error .cancelled ∨
        c.collect project rule fix interrupted = .ok collection := by
  obtain ⟨r, -, hcollect⟩ := collect_of_refusal_eq_none h
  simp only [hcollect]
  refine ⟨_, if_neg (by simp), ?_⟩
  intro interrupted
  split
  · exact Or.inl rfl
  · exact Or.inr rfl

end Collector

namespace Pass

variable {p : Pass} {rule : RuleId} {fix : FixId}

theorem runProject_of_refusal {e : CollectError} (h : p.collector.refusal rule fix = some e)
    (mode : Mode) (interrupt : Interrupt) (index : Nat) (project : Project) :
    p.runProject rule fix mode interrupt index project = .error e := by
  obtain ⟨hcollect, hne⟩ := Collector.collect_of_refusal h project fun d =>
    interrupt (.scan index d)
  rw [runProject, hcollect]
  cases e with
  | cancelled => exact absurd rfl hne
  | unknownRule => rfl
  | fixRuleMismatch => rfl
  | noProposer => rfl

/-- Wherever a project is interrupted, it gives what it gives without that, or nothing. -/
theorem runProject_of_refusal_eq_none (h : p.collector.refusal rule fix = none) (mode : Mode)
    (index : Nat) (project : Project) :
    ∃ o, p.runProject rule fix mode .never index project = .ok (some o) ∧
      ∀ interrupt, p.runProject rule fix mode interrupt index project = .ok none ∨
        p.runProject rule fix mode interrupt index project = .ok (some o) := by
  obtain ⟨collection, hscan, hscans⟩ := Collector.collect_all_or_none h project
  cases mode with
  | check =>
      refine ⟨_, by simp only [runProject, Interrupt.never, hscan]; rfl, ?_⟩
      intro interrupt
      rcases hscans fun d => interrupt (.scan index d) with hstop | hdone
      · exact Or.inl (by simp only [runProject, hstop])
      · exact Or.inr (by simp only [runProject, hdone])
  | fix =>
      obtain ⟨applied, happly, happlied⟩ :=
        applyBatch_all_or_none p.parser collection.batch project
      refine ⟨_, by simp only [runProject, Interrupt.never, hscan, happly]; rfl, ?_⟩
      intro interrupt
      rcases hscans fun d => interrupt (.scan index d) with hstop | hdone
      · exact Or.inl (by simp only [runProject, hstop])
      · rcases happlied fun d => interrupt (.apply index d) with hstop | hdones
        · exact Or.inl (by simp only [runProject, hdone, hstop])
        · exact Or.inr (by simp only [runProject, hdone, hdones])

theorem runProjects_of_refusal {e : CollectError} (h : p.collector.refusal rule fix = some e)
    (mode : Mode) (interrupt : Interrupt) (index : Nat) (projects : List Project) :
    p.runProjects rule fix mode interrupt index projects =
      p.runProjects rule fix mode .never index projects := by
  cases projects with
  | nil => rfl
  | cons project projects => simp only [runProjects, runProject_of_refusal h]

/-- Wherever a pass is interrupted, all projects give what they give without that, or nothing. -/
theorem runProjects_of_refusal_eq_none (h : p.collector.refusal rule fix = none) (mode : Mode)
    (index : Nat) (projects : List Project) :
    ∃ os, p.runProjects rule fix mode .never index projects = .ok (some os) ∧
      ∀ interrupt, p.runProjects rule fix mode interrupt index projects = .ok none ∨
        p.runProjects rule fix mode interrupt index projects = .ok (some os) := by
  induction projects generalizing index with
  | nil => exact ⟨[], rfl, fun _ => Or.inr rfl⟩
  | cons project projects ih =>
      obtain ⟨o, hcalm, ho⟩ := runProject_of_refusal_eq_none h mode index project
      obtain ⟨os, hcalms, hos⟩ := ih (index + 1)
      refine ⟨o :: os, by simp only [runProjects, hcalm, hcalms], ?_⟩
      intro interrupt
      rcases ho interrupt with hstop | hdone
      · exact Or.inl (by simp only [runProjects, hstop])
      · rcases hos interrupt with hstop | hdones
        · exact Or.inl (by simp only [runProjects, hdone, hstop])
        · exact Or.inr (by simp only [runProjects, hdone, hdones])

end Pass

/-- An outcome in which nothing was done: the given projects, nothing found, and a report that
tells only that the pass was cancelled. -/
structure Outcome.Untouched (projects : List Project) (o : Outcome) : Prop where
  projects : o.projects = projects
  findings : o.findings = []
  patch : o.patch = ""
  cancelled : o.report.cancelled = true
  reports : o.report.projects = []
  failures : o.report.failures = []
  summary : o.report.summary = {}

theorem Pass.untouched_cancelled (projects : List Project) (report : Report)
    (endedAt : Option Timestamp) : (cancelled projects report endedAt).Untouched projects where
  projects := rfl
  findings := rfl
  patch := rfl
  cancelled := rfl
  reports := rfl
  failures := rfl
  summary := rfl

/-- An outcome that tells of a cancelled pass is one in which nothing was done. -/
theorem Pass.untouched_of_run {p : Pass} {projects : List Project} {rule : RuleId} {fix : FixId}
    {mode : Mode} {stamp : Stamp} {interrupt : Interrupt} {o : Outcome}
    (h : p.run projects rule fix mode stamp interrupt = .ok o)
    (hcancelled : o.report.cancelled = true) : o.Untouched projects := by
  simp only [run] at h
  split at h
  · cases h
  · cases h
    exact untouched_cancelled projects _ _
  · cases h
    cases hcancelled

/-- Nothing is written after a pass that was cancelled. -/
theorem Outcome.Untouched.perform_documentCalls {projects : List Project} {o : Outcome}
    (h : o.Untouched projects) (before : List Project) {σ ε : Type}
    (attempt : σ → WriteCall → σ × Option ε) (s : σ) :
    perform attempt (o.documentCalls before) s = ⟨s, 0, none⟩ := by
  rw [documentCalls, if_pos h.cancelled, perform]

namespace Pass

/-- A pass whose documents are shared by workers comes, whatever their order, to what it comes to in
order.  If it is interrupted anywhere, it fails as the pass that is not interrupted does.  If that
does not fail, it gives the same outcome or one in which nothing was done, and then no document is
written. -/
theorem all_or_nothing (p : Pass) (projects : List Project) (rule : RuleId) (fix : FixId)
    (mode : Mode) (stamp : Stamp) (interrupt : Interrupt) :
    (∀ answer, p.ByWorkers rule fix mode interrupt projects stamp answer ↔
        answer = p.run projects rule fix mode stamp interrupt) ∧
      ((∃ e, p.run projects rule fix mode stamp .never = .error e ∧
          p.run projects rule fix mode stamp interrupt = .error e) ∨
        ∃ o c, p.run projects rule fix mode stamp .never = .ok o ∧
          p.run projects rule fix mode stamp interrupt = .ok c ∧
          (c = o ∨ (c.Untouched projects ∧
            ∀ (σ ε : Type) (attempt : σ → WriteCall → σ × Option ε) (s : σ),
              perform attempt (c.documentCalls projects) s = ⟨s, 0, none⟩))) := by
  refine ⟨fun answer => byWorkers_iff, ?_⟩
  cases hrefusal : p.collector.refusal rule fix with
  | some e =>
      have hsame : p.run projects rule fix mode stamp interrupt =
          p.run projects rule fix mode stamp .never := by
        rw [run, run, runProjects_of_refusal hrefusal]
      rw [hsame]
      cases hcalm : p.run projects rule fix mode stamp .never with
      | error e => exact Or.inl ⟨e, rfl, rfl⟩
      | ok o => exact Or.inr ⟨o, o, rfl, rfl, Or.inl rfl⟩
  | none =>
      obtain ⟨os, hcalm, hos⟩ := runProjects_of_refusal_eq_none hrefusal mode 0 projects
      rcases hos interrupt with hstop | hdone
      · refine Or.inr ⟨_, _, by simp only [run, hcalm]; rfl, by simp only [run, hstop]; rfl, ?_⟩
        have huntouched := untouched_cancelled projects (Report.start stamp p.tool rule fix)
          stamp.endedAt
        exact Or.inr ⟨huntouched, fun _ _ => huntouched.perform_documentCalls projects⟩
      · refine Or.inr ⟨_, _, by simp only [run, hcalm]; rfl, by simp only [run, hdone]; rfl, ?_⟩
        exact Or.inl rfl

end Pass

end PubSweep
