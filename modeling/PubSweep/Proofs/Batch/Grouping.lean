import Mathlib.Data.Finset.Card
import PubSweep.Proofs.Batch

/-!
What can be seen of a batch.

Edits are offered one after the other, and a batch takes in those of its fix.  All that it shows
then is read off the list of edits that it took in (`acceptEach_groups`).
-/

namespace PubSweep

namespace FixBatch

/-- Offers edits to a batch one after the other, and tells of each whether it was taken in. -/
def acceptEach (b : FixBatch) : List Edit → List Bool × FixBatch
  | [] => ([], b)
  | e :: es =>
    let (kept, next) := b.accept e
    let (others, last) := next.acceptEach es
    (kept :: others, last)

theorem fst_accept (b : FixBatch) (e : Edit) : (b.accept e).1 = decide (e.fix = b.fix) := by
  by_cases hfix : e.fix = b.fix
  · simp [accept, hfix]
  · simp [accept, hfix]

theorem rule_accept (b : FixBatch) (e : Edit) : (b.accept e).2.rule = b.rule := by
  unfold accept
  split <;> rfl

theorem acceptEach_eq (b : FixBatch) (edits : List Edit) :
    b.acceptEach edits = (edits.map fun e => decide (e.fix = b.fix), b.acceptAll edits) := by
  induction edits generalizing b with
  | nil => rfl
  | cons e edits ih =>
      simp only [acceptEach, ih, fix_accept, fst_accept, List.map_cons, acceptAll_cons]

theorem fix_acceptAll (b : FixBatch) (edits : List Edit) : (b.acceptAll edits).fix = b.fix := by
  induction edits generalizing b with
  | nil => rfl
  | cons e edits ih => rw [acceptAll_cons, ih, fix_accept]

theorem rule_acceptAll (b : FixBatch) (edits : List Edit) : (b.acceptAll edits).rule = b.rule := by
  induction edits generalizing b with
  | nil => rfl
  | cons e edits ih => rw [acceptAll_cons, ih, rule_accept]

/-! ### Documents -/

theorem mem_map_fst_insert {edit : Edit} {groups : List (DocumentId × List Edit)}
    {id : DocumentId} :
    id ∈ (insert edit groups).map Prod.fst ↔ edit.document = id ∨ id ∈ groups.map Prod.fst := by
  induction groups with
  | nil => simp [insert, eq_comm]
  | cons head groups ih =>
      obtain ⟨first, edits⟩ := head
      rw [insert]
      split
      case h_1 => simp [eq_comm]
      case h_2 hsame => simp [Uuid.compare_eq_eq_iff.mp hsame, eq_comm]
      case h_3 =>
        rw [List.map_cons, List.mem_cons, ih, List.map_cons, List.mem_cons]
        exact or_left_comm

theorem mem_documents_accept {b : FixBatch} {e : Edit} {id : DocumentId} :
    id ∈ (b.accept e).2.documents ↔ (e.fix = b.fix ∧ e.document = id) ∨ id ∈ b.documents := by
  by_cases hfix : e.fix = b.fix
  · simp only [accept, hfix, if_true, documents, mem_map_fst_insert, true_and]
  · simp only [accept, hfix, if_false, false_and, false_or]

/-- A batch gains the documents of the edits that it takes in. -/
theorem mem_documents_acceptAll {b : FixBatch} {edits : List Edit} {id : DocumentId} :
    id ∈ (b.acceptAll edits).documents ↔
      (∃ e ∈ edits, e.fix = b.fix ∧ e.document = id) ∨ id ∈ b.documents := by
  induction edits generalizing b with
  | nil => simp [acceptAll]
  | cons e edits ih =>
      rw [acceptAll_cons, ih, fix_accept, mem_documents_accept]
      simp only [List.mem_cons, exists_eq_or_imp, or_assoc]
      exact or_left_comm

theorem pairwise_documents {b : FixBatch} (h : Ordered b.groups) :
    b.documents.Pairwise fun a b => a.compare b = .lt := by
  rw [documents, List.pairwise_map]
  exact h.imp Uuid.compare_eq_lt_iff.mpr

/-- Edits are offered to a new batch.  It takes in those of its fix and tells so of each.  Then it
holds, for every document, the edits for it in the order in which they were taken in; it lists the
documents of these edits in ascending order, each with at least one edit; its size is the number of
edits, and it is empty if there are none. -/
theorem acceptEach_groups (rule : RuleId) (fix : FixId) (edits : List Edit) :
    let accepted := edits.filter (·.fix = fix)
    let kept := (acceptEach { rule, fix } edits).1
    let batch := (acceptEach { rule, fix } edits).2
    kept = edits.map (fun e => decide (e.fix = fix)) ∧ batch.rule = rule ∧ batch.fix = fix ∧
      (∀ id, batch.editsFor id = accepted.filter (·.document = id)) ∧
      (batch.documents.Pairwise fun a b => a.compare b = .lt) ∧
      (∀ id, id ∈ batch.documents ↔ ∃ e ∈ accepted, e.document = id) ∧
      (∀ g ∈ batch.groups, g.2 ≠ []) ∧
      batch.size = accepted.length ∧
      batch.documentCount = (accepted.map Edit.document).toFinset.card ∧
      (batch.isEmpty = true ↔ accepted = []) := by
  intro accepted kept batch
  have hnew : Ordered (⟨rule, fix, []⟩ : FixBatch).groups := List.Pairwise.nil
  have hbatch : batch = (⟨rule, fix, []⟩ : FixBatch).acceptAll edits :=
    congrArg Prod.snd (acceptEach_eq _ edits)
  have hordered : Ordered batch.groups := hbatch ▸ ordered_acceptAll hnew edits
  have heditsFor : ∀ id, batch.editsFor id = accepted.filter (·.document = id) := by
    intro id
    rw [hbatch, editsFor_new, List.filter_filter]
    apply List.filter_congr
    intro e _
    rw [Bool.decide_and, Bool.and_comm]
  have hdocuments : ∀ id, id ∈ batch.documents ↔ ∃ e ∈ accepted, e.document = id := by
    intro id
    rw [hbatch, mem_documents_acceptAll]
    simp [accepted, documents, and_assoc]
  have hnodup : batch.documents.Nodup := nodup_documents hordered
  refine ⟨congrArg Prod.fst (acceptEach_eq _ edits), hbatch ▸ rule_acceptAll _ edits,
    hbatch ▸ fix_acceptAll _ edits, heditsFor, pairwise_documents hordered, hdocuments, ?_, ?_, ?_,
    ?_⟩
  · intro g hg
    obtain ⟨e, he, hdocument⟩ := (hdocuments g.1).mp (List.mem_map_of_mem hg)
    rw [← editsFor_of_mem hordered hg, heditsFor]
    exact List.ne_nil_of_mem (List.mem_filter.mpr ⟨he, by simpa using hdocument⟩)
  · rw [hbatch, size_acceptAll]
    exact Nat.zero_add _
  · have hset : (accepted.map Edit.document).toFinset = batch.documents.toFinset := by
      ext id
      rw [List.mem_toFinset, List.mem_toFinset, hdocuments, List.mem_map]
    rw [hset, List.toFinset_card_of_nodup hnodup, documents, List.length_map, documentCount]
  · rw [isEmpty, List.isEmpty_iff, ← List.map_eq_nil_iff, ← documents,
      List.eq_nil_iff_forall_not_mem, List.eq_nil_iff_forall_not_mem]
    simp only [hdocuments, not_exists, not_and]
    exact ⟨fun h e he => h e.document e he rfl, fun h id e he _ => h e he⟩

end FixBatch

end PubSweep
