import PubSweep.Proofs.Apply.Order

/-!
To look for overlaps between neighbours is enough.

Overlapping is not transitive: a long span can overlap one that is not next to it.  But in a list
that is sorted from the last span to the first, it then overlaps the one in front of it as well
(`someOverlap_iff_neighbours`).
-/

namespace PubSweep

namespace Span

/-- Two spans overlap that stand at different places of a list. -/
def SomeOverlap (spans : List Span) : Prop :=
  ∃ i j, ∃ (hi : i < spans.length) (hj : j < spans.length),
    i ≠ j ∧ spans[i].overlaps spans[j] = true

/-- A span of a list overlaps the next one. -/
def NeighboursOverlap (spans : List Span) : Prop :=
  ∃ i, ∃ h : i + 1 < spans.length, spans[i].overlaps spans[i + 1] = true

theorem not_someOverlap_iff {spans : List Span} :
    ¬ SomeOverlap spans ↔ spans.Pairwise fun a b => a.overlaps b = false := by
  rw [List.pairwise_iff_getElem]
  constructor
  · intro h i j hi hj hlt
    rw [Bool.eq_false_iff]
    intro hoverlap
    exact h ⟨i, j, hi, hj, Nat.ne_of_lt hlt, hoverlap⟩
  · rintro h ⟨i, j, hi, hj, hne, hoverlap⟩
    rcases Nat.lt_or_gt_of_ne hne with hlt | hgt
    · rw [h i j hi hj hlt] at hoverlap
      cases hoverlap
    · rw [overlaps_comm, h j i hj hi hgt] at hoverlap
      cases hoverlap

theorem not_neighboursOverlap_iff {spans : List Span} :
    ¬ NeighboursOverlap spans ↔ spans.IsChain fun a b => a.overlaps b = false := by
  rw [List.isChain_iff_getElem]
  simp only [NeighboursOverlap, not_exists, Bool.not_eq_true]

end Span

/-- The search finds an overlap if there is one between neighbours. -/
theorem isSome_findOverlap_iff (es : List Edit) :
    (findOverlap es).isSome = true ↔ Span.NeighboursOverlap (es.map Edit.span) := by
  rw [← not_iff_not, Span.not_neighboursOverlap_iff, List.isChain_map, ← findOverlap_eq_none_iff,
    Bool.not_eq_true, Option.isSome_eq_false_iff, Option.isNone_iff_eq_none]

/-- Of spans whose ends are in order and that are sorted, later starts first and for one start later
ends first, two overlap only if two neighbours do.  Edits of these spans, given in any order, are
sorted like this before they are made, and so the search between neighbours finds an overlap exactly
if there is one at all. -/
theorem someOverlap_iff_neighbours {spans : List Span}
    (hordered : ∀ s ∈ spans, s.start ≤ s.stop)
    (hsorted : spans.Pairwise fun a b => b.start < a.start ∨ b.start = a.start ∧ b.stop ≤ a.stop) :
    (Span.SomeOverlap spans ↔ Span.NeighboursOverlap spans) ∧
      ∀ edits : List Edit, (edits.map Edit.span).Perm spans →
        (Edit.lastFirst edits).map Edit.span = spans ∧
        ((findOverlap (Edit.lastFirst edits)).isSome = true ↔ Span.SomeOverlap spans) := by
  have hsorted' : spans.Pairwise fun a b => (b.compare a).isLE = true :=
    hsorted.imp Span.isLE_compare_iff.mpr
  have hneighbours : Span.SomeOverlap spans ↔ Span.NeighboursOverlap spans := by
    rw [← not_iff_not, Span.not_someOverlap_iff, Span.not_neighboursOverlap_iff]
    refine ⟨List.Pairwise.isChain, ?_⟩
    intro hchain
    refine (Span.pairwise_of_isChain hsorted' hordered hchain).imp ?_
    intro a b hbehind
    rw [Bool.eq_false_iff, ne_eq, Span.overlaps_iff]
    omega
  refine ⟨hneighbours, ?_⟩
  intro edits hperm
  have hspans := map_span_lastFirst hsorted' hperm
  refine ⟨hspans, ?_⟩
  rw [isSome_findOverlap_iff, hspans, hneighbours]

/-- A long span overlaps the last place, behind two others. -/
theorem someOverlap_iff_neighbours_hidden :
    let spans : List Span := [⟨6, 6⟩, ⟨4, 4⟩, ⟨2, 3⟩, ⟨0, 9⟩]
    let edits :=
      [accentedEdit 0 9 "", accentedEdit 6 6 "x", accentedEdit 2 3 "", accentedEdit 4 4 ""]
    Span.SomeOverlap spans ∧ Span.NeighboursOverlap spans ∧
      (findOverlap (Edit.lastFirst edits)).isSome = true := by
  intro spans edits
  have hsome : Span.SomeOverlap spans := ⟨0, 3, by decide, by decide, by decide, by decide⟩
  have hperm : (edits.map Edit.span).Perm spans := by decide +kernel
  obtain ⟨hneighbours, hedits⟩ := @someOverlap_iff_neighbours spans (by decide) (by decide)
  exact ⟨hsome, hneighbours.mp hsome, (hedits edits hperm).2.mpr hsome⟩

end PubSweep
