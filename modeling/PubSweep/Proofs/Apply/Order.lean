import PubSweep.Proofs.Apply.Substitution

/-!
The order in which edits are given makes no difference.

Edits are sorted by their spans alone, so edits of one span stay as they were given.  But overlaps
are looked for before anything is replaced, and the search reads the spans alone
(`findOverlap_lastFirst_of_perm`).  Where it finds nothing no two edits have the same start, so the
sorted list is the same for all orders (`lastFirst_of_perm`).
-/

namespace PubSweep

open Syntax

theorem Span.eq_of_isLE_compare {a b : Span} (hab : (a.compare b).isLE = true)
    (hba : (b.compare a).isLE = true) : a = b := by
  obtain ⟨start, stop⟩ := a
  obtain ⟨start', stop'⟩ := b
  simp only [isLE_compare_iff] at hab hba
  rw [Span.mk.injEq]
  omega

/-- The first two neighbours of some spans that overlap, the later of the two first. -/
def Span.firstOverlap : List Span → Option (Span × Span)
  | first :: second :: rest =>
    if first.overlaps second then some (second, first) else firstOverlap (second :: rest)
  | _ => none

/-- The search for overlaps reads nothing of the edits but their spans. -/
theorem findOverlap_eq (es : List Edit) :
    findOverlap es = Span.firstOverlap (es.map Edit.span) := by
  fun_induction findOverlap es with
  | case1 later earlier rest hoverlap =>
      rw [List.map_cons, List.map_cons, Span.firstOverlap, if_pos hoverlap]
  | case2 later earlier rest hoverlap ih =>
      rw [List.map_cons, List.map_cons, Span.firstOverlap, if_neg hoverlap, ih, List.map_cons]
  | case3 es hshort =>
      rcases es with _ | ⟨e, _ | ⟨earlier, rest⟩⟩
      · rfl
      · rfl
      · exact absurd rfl (hshort e earlier rest)

/-- Where no neighbours overlap, each edit starts before the one in front of it, even if the ends of
spans are in the wrong order. -/
theorem pairwise_start_of_findOverlap {es : List Edit}
    (hsorted : es.Pairwise fun a b => (b.span.compare a.span).isLE = true)
    (h : findOverlap es = none) : es.Pairwise fun a b => b.span.start < a.span.start := by
  have : Trans (fun a b : Edit => b.span.start < a.span.start)
      (fun a b : Edit => b.span.start < a.span.start)
      (fun a b : Edit => b.span.start < a.span.start) := ⟨fun hab hbc => Nat.lt_trans hbc hab⟩
  rw [findOverlap_eq_none_iff, List.isChain_iff_getElem] at h
  apply List.IsChain.pairwise
  rw [List.isChain_iff_getElem]
  intro i hi
  have hle := Span.isLE_compare_iff.mp (hsorted.isChain.getElem i hi)
  have hgap := h i hi
  rw [Bool.eq_false_iff, ne_eq, Span.overlaps_iff] at hgap
  omega

/-- Spans are sorted in one way only, and edits of these spans are sorted like them. -/
theorem map_span_lastFirst {edits : List Edit} {spans : List Span}
    (hsorted : spans.Pairwise fun a b => (b.compare a).isLE = true)
    (hperm : (edits.map Edit.span).Perm spans) : (Edit.lastFirst edits).map Edit.span = spans := by
  have hsame := ((Edit.perm_lastFirst edits).map Edit.span).trans hperm
  refine List.Perm.eq_of_pairwise ?_ (List.pairwise_map.mpr (Edit.pairwise_lastFirst edits))
    hsorted hsame
  intro a b _ _ hba hab
  exact Span.eq_of_isLE_compare hab hba

section

variable {edits edits' : List Edit} (h : edits.Perm edits')

include h

/-- The same overlap is found in all orders, -/
theorem findOverlap_lastFirst_of_perm :
    findOverlap (Edit.lastFirst edits) = findOverlap (Edit.lastFirst edits') := by
  have hspans := (h.trans (Edit.perm_lastFirst edits').symm).map Edit.span
  rw [findOverlap_eq, findOverlap_eq,
    map_span_lastFirst (List.pairwise_map.mpr (Edit.pairwise_lastFirst edits')) hspans]

/-- and where there is none, the edits are made in the same order. -/
theorem lastFirst_of_perm (hfound : findOverlap (Edit.lastFirst edits) = none) :
    Edit.lastFirst edits = Edit.lastFirst edits' := by
  have hdescending := pairwise_start_of_findOverlap (Edit.pairwise_lastFirst edits) hfound
  have hperm : (Edit.lastFirst edits).reverse.Perm edits' :=
    (List.reverse_perm _).trans ((Edit.perm_lastFirst edits).trans h)
  have hsorted := Edit.lastFirst_eq_reverse hperm (List.pairwise_reverse.mpr hdescending)
  rw [hsorted, List.reverse_reverse]

/-- What becomes of the edits of a document does not depend on the order in which they are given,
whatever their spans and replacements are: it is the same document, or the same error with the same
spans, length and position. -/
theorem applyDocument_of_perm (parser : Parser) (d : Document) :
    applyDocument parser d edits = applyDocument parser d edits' := by
  have hfound := findOverlap_lastFirst_of_perm h
  simp only [applyDocument]
  rw [← hfound]
  rcases hoverlap : findOverlap (Edit.lastFirst edits) with _ | ⟨first, second⟩
  · rw [lastFirst_of_perm h hoverlap]
  · rfl

end

/-- Edits of which two replace the same span by different texts, one has its ends in the wrong
order, and one ends behind the text. -/
def tiedEdits : List Edit :=
  [accentedEdit 0 99 "(", accentedEdit 1 3 "x", accentedEdit 5 2 "", accentedEdit 1 3 "y"]

theorem applyDocument_of_perm_tied :
    tiedEdits.Perm tiedEdits.reverse ∧
      applyDocument blindParser accented tiedEdits.reverse =
        .error (.overlappingEdits ⟨1, 3⟩ ⟨1, 3⟩) := by
  have hperm : tiedEdits.Perm tiedEdits.reverse := (List.reverse_perm tiedEdits).symm
  refine ⟨hperm, ?_⟩
  rw [← applyDocument_of_perm hperm, applyDocument_eq_overlappingEdits_iff]
  cbv

end PubSweep
