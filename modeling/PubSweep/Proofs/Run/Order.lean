import Mathlib.Data.List.Forall2
import PubSweep.Proofs.Apply.Atomicity
import PubSweep.Proofs.Path.Order
import PubSweep.Run

/-!
Projects that are kept in memory.

They are sorted by their roots, and the documents of each by their paths.
`inMemory_eq_of_reordered` says that nothing is left of the order in which they were given where the
roots and paths tell them apart.  `run_eq_of_reordered` says this of a whole run: its outcome is the
same but for the stamp.
-/

namespace PubSweep

open Syntax

/-! ### The order of projects and documents -/

/-- The projects of a source in memory, each made of its documents. -/
def inMemory (given : List Project) : List Project :=
  sortByRoot (given.map fun p => .ofDocuments p.name p.root p.documents)

/-- A project and one with the same documents in another order. -/
structure Rearranged (p q : Project) : Prop where
  name : p.name = q.name
  root : p.root = q.root
  documents : p.documents.Perm q.documents

/-- Projects and the same ones in another order, with their documents in another order. -/
def Reordered (given other : List Project) : Prop :=
  ∃ between, given.Perm between ∧ List.Forall₂ Rearranged between other

section

variable {given other : List Project}

theorem Rearranged.ofDocuments_eq {p q : Project} (h : Rearranged p q)
    (hpaths : p.documents.Pairwise fun a b => a.path.components ≠ b.path.components) :
    Project.ofDocuments p.name p.root p.documents =
      Project.ofDocuments q.name q.root q.documents := by
  rw [Project.ofDocuments, Project.ofDocuments, h.name, h.root,
    Path.mergeSort_eq_of_perm Document.path h.documents hpaths]

/-- Where roots and paths are different, a source in memory does not depend on the order. -/
theorem inMemory_eq_of_reordered (h : Reordered given other)
    (hroots : given.Pairwise fun p q => p.root.components ≠ q.root.components)
    (hpaths : ∀ p ∈ given,
      p.documents.Pairwise fun a b => a.path.components ≠ b.path.components) :
    inMemory given = inMemory other := by
  obtain ⟨between, hperm, hrearranged⟩ := h
  have hdocuments : between.map (fun p => Project.ofDocuments p.name p.root p.documents) =
      other.map fun p => .ofDocuments p.name p.root p.documents := by
    replace hpaths := fun p hp => hpaths p (hperm.mem_iff.mpr hp)
    clear hperm hroots
    induction hrearranged with
    | nil => rfl
    | cons hhead _ ih =>
        rw [List.forall_mem_cons] at hpaths
        rw [List.map_cons, List.map_cons, hhead.ofDocuments_eq hpaths.1, ih hpaths.2]
  rw [inMemory, inMemory, ← hdocuments]
  refine Path.mergeSort_eq_of_perm Project.root (hperm.map _) ?_
  rw [List.pairwise_map]
  exact hroots

end

/-! ### The stamp of a run -/

/-- The same outcome with the name and times of another run. -/
def Outcome.stamped (stamp : Stamp) (o : Outcome) : Outcome :=
  { o with report := { o.report with stamp } }

/-- Only the stamp of a pass depends on its stamp. -/
theorem Pass.run_eq_map_stamped (p : Pass) (projects : List Project) (rule : RuleId) (fix : FixId)
    (mode : Mode) (stamp stamp' : Stamp) (interrupt : Interrupt) :
    p.run projects rule fix mode stamp' interrupt =
      (p.run projects rule fix mode stamp interrupt).map (·.stamped stamp') := by
  rw [run, run]
  rcases p.runProjects rule fix mode interrupt 0 projects with e | _ | os <;> rfl

theorem runSource_eq_map_stamped (parser : Parser) (settings : Settings) (tool : ToolInfo)
    (mode : Mode) (stamp stamp' : Stamp) (interrupt : Interrupt)
    (source : Except String (List Project)) :
    runSource parser settings tool mode stamp' interrupt source =
      (runSource parser settings tool mode stamp interrupt source).map (·.stamped stamp') := by
  simp only [runSource]
  by_cases hload : interrupt .load = true
  · rw [if_pos hload, if_pos hload]
    rfl
  · rw [if_neg hload, if_neg hload]
    rcases source with e | projects
    · rfl
    · dsimp only
      rw [Pass.run_eq_map_stamped _ projects Settings.rule settings.fix mode stamp stamp' interrupt]
      rcases (settings.pass parser tool).run projects Settings.rule settings.fix mode stamp
        interrupt with e | o <;> rfl

/-! ### Runs over a source in memory -/

/-- A run over projects in memory does not depend on the order in which they and their documents are
given, if no two projects have the same root and no two documents of a project the same path.  It
fails in the same way or gives the same outcome, which has its own stamp. -/
theorem run_eq_of_reordered {given other : List Project} (h : Reordered given other)
    (hroots : given.Pairwise fun p q => p.root.components ≠ q.root.components)
    (hpaths : ∀ p ∈ given, p.documents.Pairwise fun a b => a.path.components ≠ b.path.components)
    (parser : Parser) (settings : Settings) (tool : ToolInfo) (mode : Mode)
    (stamp stamp' : Stamp) (interrupt : Interrupt) :
    runSource parser settings tool mode stamp' interrupt (.ok (inMemory other)) =
      (runSource parser settings tool mode stamp interrupt (.ok (inMemory given))).map
        (·.stamped stamp') := by
  rw [← inMemory_eq_of_reordered h hroots hpaths]
  exact runSource_eq_map_stamped parser settings tool mode stamp stamp' interrupt _

/-- Two projects, neither they nor their documents in order. -/
def pairGiven : List Project :=
  [⟨"two", ⟨"/two"⟩, [structDocument 1 "b.rs", structDocument 2 "a.rs"]⟩,
    ⟨"one", ⟨"/one"⟩, [structDocument 3 "b.rs", structDocument 4 "a.rs"]⟩]

/-- The same projects in order. -/
def pairSorted : List Project :=
  [⟨"one", ⟨"/one"⟩, [structDocument 4 "a.rs", structDocument 3 "b.rs"]⟩,
    ⟨"two", ⟨"/two"⟩, [structDocument 2 "a.rs", structDocument 1 "b.rs"]⟩]

theorem inMemory_pairSorted : inMemory pairSorted = pairSorted := by
  have hdocuments : ∀ p ∈ pairSorted, Project.ofDocuments p.name p.root p.documents = p := by
    have hsorted : ∀ p ∈ pairSorted,
        p.documents.Pairwise fun a b => (a.path.compare b.path).isLE = true := by
      decide +kernel
    intro p hp
    rw [Project.ofDocuments, List.mergeSort_of_pairwise (hsorted p hp)]
  rw [inMemory, List.map_congr_left hdocuments, List.map_id']
  apply List.mergeSort_of_pairwise
  decide +kernel

theorem run_eq_of_reordered_pair :
    Reordered pairGiven pairSorted ∧
      (pairGiven.Pairwise fun p q => p.root.components ≠ q.root.components) ∧
      (∀ p ∈ pairGiven,
        p.documents.Pairwise fun a b => a.path.components ≠ b.path.components) ∧
      ∃ o, runSource Visibility.structParser {} default .fix ⟨"first", none, none⟩ .never
          (.ok (inMemory pairGiven)) = .ok o ∧
        runSource Visibility.structParser {} default .fix ⟨"second", none, none⟩ .never
          (.ok (inMemory pairSorted)) = .ok (o.stamped ⟨"second", none, none⟩) ∧
        o.findings.length = 4 := by
  have hreordered : Reordered pairGiven pairSorted := by
    refine ⟨_, List.Perm.swap _ _ _, ?_⟩
    exact .cons ⟨rfl, rfl, List.Perm.swap _ _ _⟩ (.cons ⟨rfl, rfl, List.Perm.swap _ _ _⟩ .nil)
  have hroots : pairGiven.Pairwise fun p q => p.root.components ≠ q.root.components := by
    decide +kernel
  have hpaths : ∀ p ∈ pairGiven,
      p.documents.Pairwise fun a b => a.path.components ≠ b.path.components := by
    decide +kernel
  refine ⟨hreordered, hroots, hpaths, ?_⟩
  have hrun := run_eq_of_reordered hreordered hroots hpaths Visibility.structParser {} default .fix
    ⟨"first", none, none⟩ ⟨"second", none, none⟩ .never
  have hfound : (runSource Visibility.structParser {} default .fix ⟨"second", none, none⟩ .never
      (.ok pairSorted)).toOption.map (·.findings.length) = some 4 := by
    decide +kernel
  rw [← inMemory_pairSorted, hrun] at hfound
  rcases hfirst : runSource Visibility.structParser {} default .fix ⟨"first", none, none⟩ .never
    (.ok (inMemory pairGiven)) with e | o
  · rw [hfirst] at hfound
    cases hfound
  · rw [hfirst] at hrun hfound
    exact ⟨o, rfl, hrun, Option.some.inj hfound⟩

end PubSweep
