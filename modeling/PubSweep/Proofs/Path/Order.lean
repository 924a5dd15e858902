import PubSweep.Path

/-!
The order of paths.

Paths are compared by their components.  That is a linear order on lists of components, and
`Path.compare_eq_eq_iff` says that two paths stand at the same place in it if their components are
the same.
-/

namespace PubSweep

open Std

namespace Component

theorem compare_eq_compareLex :
    compare = compareLex (compareOn rank) (compareOn text) := rfl

instance : TransCmp compare := by
  rw [compare_eq_compareLex]
  infer_instance

/-- Components of the same kind and with the same text are the same. -/
theorem eq_of_rank_of_text {a b : Component} (hrank : a.rank = b.rank) (htext : a.text = b.text) :
    a = b := by
  cases a <;> cases b <;> simp_all [rank, text]

instance : LawfulEqCmp compare where
  compare_self := by simp [compare]
  eq_of_compare {a b} h := by
    rw [compare, Ordering.then_eq_eq, Std.compare_eq_iff_eq, Std.compare_eq_iff_eq] at h
    exact eq_of_rank_of_text h.1 h.2

theorem compareAll_eq_compareLex (as bs : List Component) :
    compareAll as bs = List.compareLex compare as bs := by
  induction as generalizing bs with
  | nil => cases bs <;> rfl
  | cons a as ih =>
      cases bs with
      | nil => rfl
      | cons b bs => rw [compareAll, ih, List.compareLex_cons_cons]

end Component

namespace Path

theorem compare_eq_compareLex (p q : Path) :
    p.compare q = List.compareLex Component.compare p.components q.components :=
  Component.compareAll_eq_compareLex p.components q.components

theorem compare_eq_eq_iff {p q : Path} : p.compare q = .eq ↔ p.components = q.components := by
  rw [compare_eq_compareLex]
  exact LawfulEqCmp.compare_eq_iff_eq

instance : TransCmp compare where
  eq_swap {p q} := by
    simp only [compare_eq_compareLex]
    exact OrientedCmp.eq_swap
  isLE_trans {p q r} := by
    simp only [compare_eq_compareLex]
    exact TransCmp.isLE_trans

/-- A list sorted by the paths of its elements, no two of which are the same, goes strictly up. -/
theorem pairwise_lt_mergeSort {α : Type} (path : α → Path) {as : List α}
    (h : as.Pairwise fun a b => (path a).components ≠ (path b).components) :
    (as.mergeSort fun a b => ((path a).compare (path b)).isLE).Pairwise fun a b =>
      (path a).compare (path b) = .lt := by
  have hsorted : (as.mergeSort fun a b => ((path a).compare (path b)).isLE).Pairwise fun a b =>
      ((path a).compare (path b)).isLE = true := by
    apply List.pairwise_mergeSort
    · intro a b c
      exact TransCmp.isLE_trans
    · intro a b
      have hswap : (path a).compare (path b) = ((path b).compare (path a)).swap :=
        OrientedCmp.eq_swap
      rw [hswap]
      cases (path b).compare (path a) <;> rfl
  have hdistinct : (as.mergeSort fun a b => ((path a).compare (path b)).isLE).Pairwise fun a b =>
      (path a).components ≠ (path b).components :=
    ((List.mergeSort_perm as _).pairwise_iff Ne.symm).mpr h
  refine (hsorted.and hdistinct).imp ?_
  rintro a b ⟨hle, hne⟩
  rcases Ordering.isLE_iff_eq_lt_or_eq_eq.mp hle with hlt | heq
  · exact hlt
  · exact absurd (compare_eq_eq_iff.mp heq) hne

/-- There is one way only to put things strictly up. -/
theorem eq_of_perm {α : Type} {path : α → Path} {as bs : List α} (hperm : as.Perm bs)
    (has : as.Pairwise fun a b => (path a).compare (path b) = .lt)
    (hbs : bs.Pairwise fun a b => (path a).compare (path b) = .lt) : as = bs := by
  refine List.Perm.eq_of_pairwise ?_ has hbs hperm
  intro a b _ _ hab hba
  have hgt := OrientedCmp.gt_of_lt hab
  rw [hba] at hgt
  cases hgt

/-- There is one way only to put the same members strictly up. -/
theorem eq_of_mem_iff {α : Type} {path : α → Path} {as bs : List α}
    (has : as.Pairwise fun a b => (path a).compare (path b) = .lt)
    (hbs : bs.Pairwise fun a b => (path a).compare (path b) = .lt)
    (h : ∀ a, a ∈ as ↔ a ∈ bs) : as = bs := by
  have hnodup : ∀ {cs : List α},
      (cs.Pairwise fun a b => (path a).compare (path b) = .lt) → cs.Nodup := by
    intro cs hcs
    refine hcs.imp ?_
    rintro a b hlt rfl
    rw [compare_eq_eq_iff.mpr rfl] at hlt
    cases hlt
  exact eq_of_perm ((List.perm_ext_iff_of_nodup (hnodup has) (hnodup hbs)).mpr h) has hbs

/-- What is sorted by paths, no two of which are the same, may come in any order. -/
theorem mergeSort_eq_of_perm {α : Type} (path : α → Path) {as bs : List α} (hperm : as.Perm bs)
    (h : as.Pairwise fun a b => (path a).components ≠ (path b).components) :
    as.mergeSort (fun a b => ((path a).compare (path b)).isLE) =
      bs.mergeSort fun a b => ((path a).compare (path b)).isLE :=
  eq_of_perm ((List.mergeSort_perm as _).trans (hperm.trans (List.mergeSort_perm bs _).symm))
    (pairwise_lt_mergeSort path h)
    (pairwise_lt_mergeSort path ((hperm.pairwise_iff Ne.symm).mp h))

/-- In a list that goes strictly up, a path is found at one place only. -/
theorem index_unique {α : Type} {path : α → Path} {as : List α}
    (h : as.Pairwise fun a b => (path a).compare (path b) = .lt) {i j : Nat} {a b : α}
    (hi : as[i]? = some a) (hj : as[j]? = some b)
    (hab : (path a).components = (path b).components) : i = j := by
  have hne : (path a).compare (path b) ≠ .lt ∧ (path b).compare (path a) ≠ .lt := by
    rw [compare_eq_eq_iff.mpr hab, compare_eq_eq_iff.mpr hab.symm]
    exact ⟨nofun, nofun⟩
  obtain ⟨hilt, rfl⟩ := List.getElem?_eq_some_iff.mp hi
  obtain ⟨hjlt, rfl⟩ := List.getElem?_eq_some_iff.mp hj
  rw [List.pairwise_iff_getElem] at h
  rcases Nat.lt_trichotomy i j with hlt | heq | hgt
  · exact absurd (h i j hilt hjlt hlt) hne.1
  · exact heq
  · exact absurd (h j i hjlt hilt hgt) hne.2

end Path

end PubSweep
