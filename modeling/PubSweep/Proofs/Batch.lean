import Mathlib.Data.List.Basic
import PubSweep.Edit

/-!
Batches as groups of edits.

The main statement is `editsFor_acceptAll`: a batch holds, for every document, the edits of its
fix that were offered for the document, in the order in which they were offered.
-/

namespace PubSweep

namespace Uuid

theorem compare_eq_lt_iff {a b : Uuid} :
    a.compare b = .lt ↔ a.value.toNat < b.value.toNat := by
  rw [compare, Nat.compare_eq_lt]

theorem compare_eq_gt_iff {a b : Uuid} :
    a.compare b = .gt ↔ b.value.toNat < a.value.toNat := by
  rw [compare, Nat.compare_eq_gt]

theorem compare_eq_eq_iff {a b : Uuid} : a.compare b = .eq ↔ a = b := by
  rw [compare, Nat.compare_eq_eq]
  constructor
  · intro h
    cases a
    cases b
    simpa using BitVec.eq_of_toNat_eq h
  · rintro rfl
    rfl

end Uuid

theorem lookup_cons_of_ne {α : Type} {id head : DocumentId} (h : id ≠ head) (value : α)
    (groups : List (DocumentId × α)) : ((head, value) :: groups).lookup id = groups.lookup id := by
  have hbeq : (id == head) = false := by simpa using h
  rw [List.lookup_cons, hbeq]

namespace FixBatch

/-- Groups in the order of the identities of their documents, one group for each. -/
def Ordered (groups : List (DocumentId × List Edit)) : Prop :=
  groups.Pairwise fun g h => g.1.value.toNat < h.1.value.toNat

theorem mem_insert {edit : Edit} {groups : List (DocumentId × List Edit)}
    {g : DocumentId × List Edit} (hg : g ∈ insert edit groups) :
    g.1 = edit.document ∨ ∃ h ∈ groups, h.1 = g.1 := by
  induction groups with
  | nil =>
      rw [insert, List.mem_singleton] at hg
      exact Or.inl (by rw [hg])
  | cons head groups ih =>
      obtain ⟨id, edits⟩ := head
      rw [insert] at hg
      split at hg
      · rcases List.mem_cons.mp hg with rfl | hg
        · exact Or.inl rfl
        · exact Or.inr ⟨g, hg, rfl⟩
      · rcases List.mem_cons.mp hg with rfl | hg
        · exact Or.inr ⟨(id, edits), List.mem_cons_self, rfl⟩
        · exact Or.inr ⟨g, List.mem_cons_of_mem _ hg, rfl⟩
      · rcases List.mem_cons.mp hg with rfl | hg
        · exact Or.inr ⟨(id, edits), List.mem_cons_self, rfl⟩
        · rcases ih hg with hnew | ⟨h, hh, heq⟩
          · exact Or.inl hnew
          · exact Or.inr ⟨h, List.mem_cons_of_mem _ hh, heq⟩

theorem Ordered.insert {groups : List (DocumentId × List Edit)} (h : Ordered groups)
    (edit : Edit) : Ordered (insert edit groups) := by
  induction groups with
  | nil => exact List.pairwise_singleton _ _
  | cons head groups ih =>
      obtain ⟨id, edits⟩ := head
      have hparts := List.pairwise_cons.mp h
      rw [FixBatch.insert]
      split
      case h_1 hlt =>
        have hid := Uuid.compare_eq_lt_iff.mp hlt
        refine List.pairwise_cons.mpr ⟨?_, h⟩
        intro g hg
        rcases List.mem_cons.mp hg with rfl | hg
        · exact hid
        · exact Nat.lt_trans hid (hparts.1 g hg)
      case h_2 => exact List.pairwise_cons.mpr ⟨hparts.1, hparts.2⟩
      case h_3 hgt =>
        refine List.pairwise_cons.mpr ⟨?_, ih hparts.2⟩
        intro g hg
        rcases mem_insert hg with hnew | ⟨k, hk, heq⟩
        · rw [hnew]
          exact Uuid.compare_eq_gt_iff.mp hgt
        · rw [← heq]
          exact hparts.1 k hk

/-- A document that comes before all groups has none. -/
theorem lookup_eq_none_of_lt {groups : List (DocumentId × List Edit)} {id : DocumentId}
    (h : ∀ g ∈ groups, id.value.toNat < g.1.value.toNat) : groups.lookup id = none := by
  rw [List.lookup_eq_none_iff]
  intro g hg
  have hlt := h g hg
  have hne : id ≠ g.1 := by
    rintro rfl
    exact Nat.lt_irrefl _ hlt
  simpa using hne

/-- Adding an edit changes the group of its document only, and puts the edit at its end. -/
theorem lookup_insert {groups : List (DocumentId × List Edit)} (h : Ordered groups) (edit : Edit)
    (id : DocumentId) :
    ((insert edit groups).lookup id).getD [] =
      (groups.lookup id).getD [] ++ if edit.document = id then [edit] else [] := by
  induction groups with
  | nil =>
      by_cases heq : edit.document = id
      · subst heq
        simp [insert]
      · rw [insert, lookup_cons_of_ne (Ne.symm heq)]
        simp [heq]
  | cons head groups ih =>
      obtain ⟨head, edits⟩ := head
      have hparts := List.pairwise_cons.mp h
      rw [insert]
      split
      case h_1 hlt =>
        have hbefore := Uuid.compare_eq_lt_iff.mp hlt
        by_cases heq : edit.document = id
        · subst heq
          have hnone : ((head, edits) :: groups).lookup edit.document = none := by
            apply lookup_eq_none_of_lt
            intro g hg
            rcases List.mem_cons.mp hg with rfl | hg
            · exact hbefore
            · exact Nat.lt_trans hbefore (hparts.1 g hg)
          simp [hnone]
        · rw [lookup_cons_of_ne (Ne.symm heq)]
          simp [heq]
      case h_2 hsame =>
        have hhead := Uuid.compare_eq_eq_iff.mp hsame
        subst hhead
        by_cases heq : edit.document = id
        · subst heq
          simp
        · rw [lookup_cons_of_ne (Ne.symm heq), lookup_cons_of_ne (Ne.symm heq)]
          simp [heq]
      case h_3 hgt =>
        have hafter := Uuid.compare_eq_gt_iff.mp hgt
        by_cases hhead : id = head
        · subst hhead
          have hne : edit.document ≠ id := by
            rintro rfl
            exact Nat.lt_irrefl _ hafter
          simp [hne]
        · rw [lookup_cons_of_ne hhead, lookup_cons_of_ne hhead]
          exact ih hparts.2

/-- Offers edits to a batch one after the other. -/
def acceptAll (b : FixBatch) (edits : List Edit) : FixBatch :=
  edits.foldl (fun b e => (b.accept e).2) b

theorem acceptAll_cons (b : FixBatch) (edit : Edit) (edits : List Edit) :
    b.acceptAll (edit :: edits) = (b.accept edit).2.acceptAll edits := rfl

theorem editsFor_accept {b : FixBatch} (h : Ordered b.groups) (edit : Edit) (id : DocumentId) :
    (b.accept edit).2.editsFor id =
      b.editsFor id ++ if edit.fix = b.fix ∧ edit.document = id then [edit] else [] := by
  by_cases hfix : edit.fix = b.fix
  · simp [accept, hfix, editsFor, lookup_insert h]
  · simp [accept, hfix]

theorem fix_accept (b : FixBatch) (edit : Edit) : (b.accept edit).2.fix = b.fix := by
  rw [accept]
  split <;> rfl

theorem ordered_accept {b : FixBatch} (h : Ordered b.groups) (edit : Edit) :
    Ordered (b.accept edit).2.groups := by
  rw [accept]
  split
  · exact h.insert edit
  · exact h

/-- A batch gains, for every document, the edits of its fix for that document. -/
theorem editsFor_acceptAll {b : FixBatch} (h : Ordered b.groups) (edits : List Edit)
    (id : DocumentId) :
    (b.acceptAll edits).editsFor id =
      b.editsFor id ++ edits.filter fun e => e.fix = b.fix ∧ e.document = id := by
  induction edits generalizing b with
  | nil => simp [acceptAll]
  | cons e edits ih =>
      have hrest := ih (ordered_accept h e)
      rw [fix_accept, editsFor_accept h] at hrest
      rw [acceptAll_cons, hrest, List.filter_cons]
      split <;> simp_all

theorem ordered_acceptAll {b : FixBatch} (h : Ordered b.groups) (edits : List Edit) :
    Ordered (b.acceptAll edits).groups := by
  induction edits generalizing b with
  | nil => exact h
  | cons e edits ih => exact ih (ordered_accept h e)

/-- Adding an edit makes one edit more. -/
theorem size_insert (edit : Edit) (groups : List (DocumentId × List Edit)) :
    (insert edit groups).foldr (fun g n => g.2.length + n) 0 =
      groups.foldr (fun g n => g.2.length + n) 0 + 1 := by
  induction groups with
  | nil => rfl
  | cons head groups ih =>
      rw [insert]
      split
      · simp only [List.foldr_cons, List.length_singleton]
        omega
      · simp only [List.foldr_cons, List.length_append, List.length_singleton]
        omega
      · simp only [List.foldr_cons, ih]
        omega

/-- A batch grows by the edits of its fix. -/
theorem size_acceptAll (b : FixBatch) (edits : List Edit) :
    (b.acceptAll edits).size = b.size + (edits.filter (·.fix = b.fix)).length := by
  induction edits generalizing b with
  | nil => rfl
  | cons e edits ih =>
      have hrest := ih (b.accept e).2
      rw [fix_accept] at hrest
      rw [acceptAll_cons, hrest]
      by_cases hfix : e.fix = b.fix
      · have hsize : (b.accept e).2.size = b.size + 1 := by
          rw [accept, if_pos hfix]
          exact size_insert e b.groups
        rw [hsize, List.filter_cons_of_pos (by simpa using hfix), List.length_cons]
        omega
      · rw [accept, if_neg hfix, List.filter_cons_of_neg (by simpa using hfix)]

/-- All edits of a batch, document by document. -/
def edits (b : FixBatch) : List Edit := b.groups.flatMap (·.2)

theorem size_eq_length_edits (b : FixBatch) : b.size = b.edits.length := by
  rw [size, edits]
  induction b.groups with
  | nil => rfl
  | cons g groups ih => rw [List.foldr_cons, ih, List.flatMap_cons, List.length_append]

theorem nodup_documents {b : FixBatch} (h : Ordered b.groups) : b.documents.Nodup := by
  rw [documents, List.Nodup, List.pairwise_map]
  refine h.imp ?_
  intro g k hlt heq
  rw [heq] at hlt
  exact Nat.lt_irrefl _ hlt

theorem editsFor_eq_nil {b : FixBatch} {id : DocumentId} (h : id ∉ b.documents) :
    b.editsFor id = [] := by
  have hnone : b.groups.lookup id = none := by
    rw [List.lookup_eq_none_iff]
    intro g hg
    rw [bne_iff_ne]
    rintro rfl
    exact h (List.mem_map_of_mem hg)
  rw [editsFor, hnone]
  rfl

/-- A group holds the edits for its document. -/
theorem editsFor_of_mem {b : FixBatch} (h : Ordered b.groups) {g : DocumentId × List Edit}
    (hg : g ∈ b.groups) : b.editsFor g.1 = g.2 := by
  have hnodup := nodup_documents h
  obtain ⟨front, back, hgroups⟩ := List.append_of_mem hg
  have hlookup : b.groups.lookup g.1 = some g.2 := by
    rw [List.lookup_eq_some_iff]
    refine ⟨front, back, hgroups, ?_⟩
    intro other hother
    rw [documents, hgroups, List.map_append, List.map_cons, List.nodup_append] at hnodup
    rw [bne_iff_ne]
    exact Ne.symm (hnodup.2.2 _ (List.mem_map_of_mem hother) _ List.mem_cons_self)
  rw [editsFor, hlookup]
  rfl

/-- The edits of a batch are the edits for its documents. -/
theorem edits_eq_flatMap {b : FixBatch} (h : Ordered b.groups) :
    b.edits = b.documents.flatMap b.editsFor := by
  rw [edits, documents, List.flatMap_map]
  apply List.flatMap_congr
  intro g hg
  exact (editsFor_of_mem h hg).symm

/-- A new batch holds the edits of its fix, by document. -/
theorem editsFor_new (rule : RuleId) (fix : FixId) (edits : List Edit) (id : DocumentId) :
    ((⟨rule, fix, []⟩ : FixBatch).acceptAll edits).editsFor id =
      edits.filter fun e => e.fix = fix ∧ e.document = id := by
  have hempty : Ordered (⟨rule, fix, []⟩ : FixBatch).groups := List.Pairwise.nil
  rw [editsFor_acceptAll hempty]
  rfl

end FixBatch

end PubSweep
