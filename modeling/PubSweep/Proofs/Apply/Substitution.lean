import Mathlib.Data.List.Chain
import Mathlib.Data.List.Perm.Subperm
import Mathlib.Data.List.Permutation
import PubSweep.Proofs.Apply

/-!
Edits made from the last to the first are edits made all at once.

The bounds of an edit are checked against a text that later edits have changed already, and overlaps
are looked for between neighbours only.  For spans whose ends are in order, neighbours are enough
(`descending_of_findOverlap`).  What an edit then changes lies behind all that are still to come, so
each one fits exactly if it fits the text that was given (`fits_of_spliceAll`), and the result is
`substitute` (`spliceAll_eq_substitute`).  `applyDocument_substitutes` says so of documents.
-/

namespace PubSweep

open Syntax

/-- A text in which spans are replaced at once.  The spans are given in ascending order: up to the
first of them the text is kept, from an offset on, and behind it the rest follows in the same
way. -/
def substitute (bytes : List UInt8) : (offset : Nat) → List Edit → List UInt8
  | offset, [] => bytes.drop offset
  | offset, e :: es =>
    (bytes.drop offset).take (e.span.start - offset) ++ Text.bytesOf e.replacement.toList ++
      substitute bytes e.span.stop es

/-- Edits in the order of their spans. -/
def Edit.firstFirst (edits : List Edit) : List Edit :=
  edits.mergeSort fun a b => (a.span.compare b.span).isLE

/-- No two of some edits overlap. -/
def Edit.Apart (edits : List Edit) : Prop :=
  edits.Pairwise fun a b => a.span.overlaps b.span = false

instance : DecidablePred Edit.Apart := fun _ => inferInstanceAs (Decidable (List.Pairwise _ _))

/-- Each edit ends before those in front of it start. -/
def Edit.Descending (edits : List Edit) : Prop :=
  edits.Pairwise fun a b => b.span.start < a.span.start ∧ b.span.stop ≤ a.span.start

/-! ### Overlaps -/

theorem Edit.apart_iff_of_perm {edits edits' : List Edit} (h : edits.Perm edits') :
    Edit.Apart edits ↔ Edit.Apart edits' :=
  h.pairwise_iff fun {a b} hab => by rw [Span.overlaps_comm, hab]

theorem Edit.perm_lastFirst (edits : List Edit) : (Edit.lastFirst edits).Perm edits :=
  List.mergeSort_perm edits _

/-- A pair that is found does overlap, and belongs to two edits. -/
theorem overlaps_of_findOverlap {es : List Edit} {a b : Span} (h : findOverlap es = some (a, b)) :
    a.overlaps b = true ∧ ∃ x y, [y, x].Sublist es ∧ x.span = a ∧ y.span = b := by
  fun_induction findOverlap es with
  | case1 later earlier rest hoverlap =>
      cases h
      exact ⟨by rw [Span.overlaps_comm, hoverlap], earlier, later,
        ((List.nil_sublist rest).cons_cons earlier).cons_cons later, rfl, rfl⟩
  | case2 later earlier rest hoverlap ih =>
      obtain ⟨hpair, x, y, hsub, hx, hy⟩ := ih h
      exact ⟨hpair, x, y, hsub.cons later, hx, hy⟩
  | case3 => cases h

/-- Of spans that come last first, each ends before those in front of it start, if no neighbours
overlap. -/
theorem Span.pairwise_of_isChain {spans : List Span}
    (hsorted : spans.Pairwise fun a b => (b.compare a).isLE = true)
    (hordered : ∀ s ∈ spans, s.start ≤ s.stop)
    (h : spans.IsChain fun a b => a.overlaps b = false) :
    spans.Pairwise fun a b => b.start < a.start ∧ b.stop ≤ a.start := by
  have : Trans (fun a b : Span => b.start < a.start ∧ b.stop ≤ a.start)
      (fun a b : Span => b.start < a.start ∧ b.stop ≤ a.start)
      (fun a b : Span => b.start < a.start ∧ b.stop ≤ a.start) :=
    ⟨fun hab hbc => ⟨Nat.lt_trans hbc.1 hab.1, Nat.le_trans hbc.2 (Nat.le_of_lt hab.1)⟩⟩
  apply List.IsChain.pairwise
  rw [List.isChain_iff_getElem] at h ⊢
  intro i hi
  have hle := Span.isLE_compare_iff.mp (hsorted.isChain.getElem i hi)
  have hspan := hordered spans[i] (List.getElem_mem _)
  have hgap := h i hi
  rw [Bool.eq_false_iff, ne_eq, Span.overlaps_iff] at hgap
  omega

/-- If no neighbours overlap, no two edits do. -/
theorem descending_of_findOverlap {es : List Edit}
    (hsorted : es.Pairwise fun a b => (b.span.compare a.span).isLE = true)
    (hordered : ∀ e ∈ es, e.span.start ≤ e.span.stop) (h : findOverlap es = none) :
    Edit.Descending es := by
  have hchain : (es.map Edit.span).IsChain fun a b => a.overlaps b = false :=
    (List.isChain_map Edit.span).mpr (findOverlap_eq_none_iff.mp h)
  have hspans : ∀ s ∈ es.map Edit.span, s.start ≤ s.stop := by simpa using hordered
  exact List.pairwise_map.mp
    (Span.pairwise_of_isChain (List.pairwise_map.mpr hsorted) hspans hchain)

theorem Edit.Descending.apart {es : List Edit} (h : Edit.Descending es) : Edit.Apart es := by
  refine h.imp ?_
  intro a b hab
  rw [Bool.eq_false_iff, ne_eq, Span.overlaps_iff]
  omega

/-! ### Substitution -/

/-- Behind all spans a text stays as it is. -/
theorem substitute_take_drop {bytes : List UInt8} {offset n : Nat} {es : List Edit}
    (hoffset : offset ≤ n) (hes : ∀ e ∈ es, e.span.start ≤ n ∧ e.span.stop ≤ n) :
    substitute bytes offset es = substitute (bytes.take n) offset es ++ bytes.drop n := by
  induction es generalizing offset with
  | nil =>
      rw [substitute, substitute, List.drop_take]
      have hsplit := List.take_append_drop (n - offset) (bytes.drop offset)
      rw [List.drop_drop, Nat.add_sub_cancel' hoffset] at hsplit
      exact hsplit.symm
  | cons e es ih =>
      obtain ⟨hstart, hstop⟩ := hes e List.mem_cons_self
      have hrest := ih hstop fun f hf => hes f (List.mem_cons_of_mem e hf)
      have hgap : min (e.span.start - offset) (n - offset) = e.span.start - offset := by omega
      rw [substitute, substitute, hrest, List.drop_take, List.take_take, hgap]
      simp only [List.append_assoc]

/-- The last span is replaced in the text behind the others. -/
theorem substitute_concat {bytes : List UInt8} {offset : Nat} {es : List Edit} {e : Edit}
    (hes : ∀ f ∈ es, f.span.start ≤ e.span.start) :
    substitute bytes offset (es ++ [e]) =
      substitute (bytes.take e.span.start) offset es ++ Text.bytesOf e.replacement.toList ++
        bytes.drop e.span.stop := by
  induction es generalizing offset with
  | nil => simp [substitute, List.drop_take]
  | cons f es ih =>
      have hstart := hes f List.mem_cons_self
      have hrest := @ih f.span.stop fun g hg => hes g (List.mem_cons_of_mem f hg)
      have hgap : min (f.span.start - offset) (e.span.start - offset) = f.span.start - offset := by
        omega
      rw [List.cons_append, substitute, substitute, hrest, List.drop_take, List.take_take, hgap]
      simp only [List.append_assoc]

/-! ### From the last edit to the first -/

/-- A span in the first part of a text fits whatever follows. -/
theorem Text.fits_append {span : Span} {before : List Char} (h : span.stop ≤ byteLength before)
    (after after' : List Char) (hfits : Fits span (before ++ after)) :
    Fits span (before ++ after') := by
  have hstart : span.start ≤ byteLength before := Nat.le_trans hfits.ordered h
  refine ⟨hfits.ordered, by rw [byteLength_append]; omega, ?_, ?_⟩
  · rw [isBoundary_append hstart, ← isBoundary_append hstart after]
    exact hfits.start
  · rw [isBoundary_append h, ← isBoundary_append h after]
    exact hfits.stop

/-- Edits that are all made have their ends in order. -/
theorem ordered_of_spliceAll {es : List Edit} {cs new : List Char}
    (h : spliceAll es cs = .ok new) : ∀ e ∈ es, e.span.start ≤ e.span.stop := by
  induction es generalizing cs with
  | nil => simp
  | cons e es ih =>
      rw [spliceAll] at h
      split at h
      case h_2 => cases h
      case h_1 next hsplice =>
        obtain ⟨before, old, after, -, hstart, hstop, -⟩ := Text.splice_eq_ok_iff.mp hsplice
        intro f hf
        rcases List.mem_cons.mp hf with rfl | hf
        · omega
        · exact ih h f hf

/-- Edits that are all made fit the text that was given, -/
theorem fits_of_spliceAll {es : List Edit} (hdescending : Edit.Descending es) {cs new : List Char}
    (h : spliceAll es cs = .ok new) : ∀ e ∈ es, Text.Fits e.span cs := by
  induction es generalizing cs with
  | nil => simp
  | cons e es ih =>
      rw [spliceAll] at h
      split at h
      case h_2 => cases h
      case h_1 next hsplice =>
        obtain ⟨before, old, after, rfl, hstart, hstop, rfl⟩ := Text.splice_eq_ok_iff.mp hsplice
        obtain ⟨hfirst, hrest⟩ := List.pairwise_cons.mp hdescending
        intro f hf
        rcases List.mem_cons.mp hf with rfl | hf
        · exact Text.fits_iff.mpr ⟨before, old, after, rfl, hstart, hstop⟩
        · have hfits := ih hrest h f hf
          have hbefore : f.span.stop ≤ Text.byteLength before := hstart ▸ (hfirst f hf).2
          rw [List.append_assoc] at hfits ⊢
          exact Text.fits_append hbefore _ _ hfits

/-- and edits that fit it are made, as if all at once. -/
theorem spliceAll_eq_substitute {es : List Edit} (hdescending : Edit.Descending es)
    {cs : List Char} (hfits : ∀ e ∈ es, Text.Fits e.span cs) :
    ∃ new, spliceAll es cs = .ok new ∧
      Text.bytesOf new = substitute (Text.bytesOf cs) 0 es.reverse := by
  induction es generalizing cs with
  | nil => exact ⟨cs, rfl, rfl⟩
  | cons e es ih =>
      obtain ⟨hfirst, hrest⟩ := List.pairwise_cons.mp hdescending
      obtain ⟨before, old, after, rfl, hstart, hstop⟩ :=
        Text.fits_iff.mp (hfits e List.mem_cons_self)
      have hsplice := Text.splice_append hstart hstop e.replacement.toList after
      obtain ⟨new, hnew, hbytes⟩ := @ih hrest (before ++ e.replacement.toList ++ after) (by
        intro f hf
        have hbefore : f.span.stop ≤ Text.byteLength before := hstart ▸ (hfirst f hf).2
        have hold := hfits f (List.mem_cons_of_mem e hf)
        rw [List.append_assoc] at hold ⊢
        exact Text.fits_append hbefore _ _ hold)
      refine ⟨new, by rw [spliceAll, hsplice]; exact hnew, ?_⟩
      -- Both texts begin with the part before the edit, in which all other spans lie.
      have hothers : ∀ f ∈ es.reverse,
          f.span.start ≤ e.span.start ∧ f.span.stop ≤ e.span.start := by
        intro f hf
        have hbefore := hfirst f (List.mem_reverse.mp hf)
        exact ⟨Nat.le_of_lt hbefore.1, hbefore.2⟩
      have hlength : (Text.bytesOf before).length = e.span.start := by
        rw [Text.length_bytesOf, hstart]
      have hlength' : (Text.bytesOf before ++ Text.bytesOf old).length = e.span.stop := by
        rw [List.length_append, Text.length_bytesOf, Text.length_bytesOf, hstop]
      have htake : ∀ rest, (Text.bytesOf before ++ rest).take e.span.start = Text.bytesOf before :=
        fun _ => List.take_left' hlength
      have hdrop : ∀ rest, (Text.bytesOf before ++ rest).drop e.span.start = rest :=
        fun _ => List.drop_left' hlength
      have hbehind : ∀ rest,
          (Text.bytesOf before ++ Text.bytesOf old ++ rest).drop e.span.stop = rest :=
        fun _ => List.drop_left' hlength'
      rw [hbytes, substitute_take_drop (Nat.zero_le e.span.start) hothers, List.reverse_cons,
        substitute_concat fun f hf => (hothers f hf).1]
      simp only [Text.bytesOf_append, hbehind]
      simp only [List.append_assoc, htake, hdrop]

/-! ### Documents -/

theorem Edit.firstFirst_reverse {edits : List Edit} (h : Edit.Apart edits) :
    Edit.lastFirst edits = (Edit.firstFirst edits).reverse := by
  have hperm : (Edit.firstFirst edits).Perm edits := List.mergeSort_perm edits _
  apply Edit.lastFirst_eq_reverse hperm
  have hsorted : (Edit.firstFirst edits).Pairwise fun a b =>
      (a.span.compare b.span).isLE = true := by
    apply List.pairwise_mergeSort
    · intro a b c
      simp only [Span.isLE_compare_iff]
      omega
    · intro a b
      simp only [Bool.or_eq_true, Span.isLE_compare_iff]
      omega
  refine (((Edit.apart_iff_of_perm hperm).mpr h).and hsorted).imp ?_
  rintro a b ⟨hoverlap, hle⟩
  rw [Bool.eq_false_iff, ne_eq, Span.overlaps_iff] at hoverlap
  rw [Span.isLE_compare_iff] at hle
  omega

/-- The spans of some edits fit a text, and no two overlap. -/
def Edit.Sound (cs : List Char) (edits : List Edit) : Prop :=
  (∀ e ∈ edits, Text.Fits e.span cs) ∧ Edit.Apart edits

section

variable {edits : List Edit} {cs : List Char}

/-- Edits that are looked at and made without an error are sound. -/
theorem Edit.sound_of_spliceAll {new : List Char}
    (hfound : findOverlap (Edit.lastFirst edits) = none)
    (h : spliceAll (Edit.lastFirst edits) cs = .ok new) : Edit.Sound cs edits := by
  have hperm := Edit.perm_lastFirst edits
  have hdescending := descending_of_findOverlap (Edit.pairwise_lastFirst edits)
    (ordered_of_spliceAll h) hfound
  refine ⟨?_, (Edit.apart_iff_of_perm hperm).mp hdescending.apart⟩
  intro e he
  exact fits_of_spliceAll hdescending h e (hperm.mem_iff.mpr he)

/-- Edits whose ends are in order overlap exactly if some neighbours do. -/
theorem Edit.apart_iff (hordered : ∀ e ∈ edits, e.span.start ≤ e.span.stop) :
    Edit.Apart edits ↔ findOverlap (Edit.lastFirst edits) = none := by
  have hperm := Edit.perm_lastFirst edits
  rw [← Edit.apart_iff_of_perm hperm]
  refine ⟨fun h => findOverlap_eq_none_iff.mpr h.isChain, ?_⟩
  intro h
  exact (descending_of_findOverlap (Edit.pairwise_lastFirst edits)
    (fun e he => hordered e (hperm.mem_iff.mp he)) h).apart

/-- Sound edits are made as if all at once. -/
theorem Edit.Sound.spliceAll (h : Edit.Sound cs edits) :
    findOverlap (Edit.lastFirst edits) = none ∧
      ∃ new, PubSweep.spliceAll (Edit.lastFirst edits) cs = .ok new ∧
        Text.bytesOf new = substitute (Text.bytesOf cs) 0 (Edit.firstFirst edits) := by
  have hperm := Edit.perm_lastFirst edits
  have hfound := (Edit.apart_iff fun e he => (h.1 e he).ordered).mp h.2
  have hdescending := descending_of_findOverlap (Edit.pairwise_lastFirst edits)
    (fun e he => (h.1 e (hperm.mem_iff.mp he)).ordered) hfound
  obtain ⟨new, hnew, hbytes⟩ := spliceAll_eq_substitute hdescending fun e he =>
    h.1 e (hperm.mem_iff.mp he)
  rw [Edit.firstFirst_reverse h.2, List.reverse_reverse] at hbytes
  exact ⟨hfound, new, hnew, hbytes⟩

end

/-- Only overlaps that were found are reported as such. -/
theorem applyDocument_eq_overlappingEdits_iff {parser : Parser} {d : Document} {edits : List Edit}
    {a b : Span} : applyDocument parser d edits = .error (.overlappingEdits a b) ↔
      findOverlap (Edit.lastFirst edits) = some (a, b) := by
  constructor
  · intro h
    simp only [applyDocument] at h
    split at h
    case h_1 first second hfound =>
      cases h
      exact hfound
    case h_2 =>
      split at h
      · cases h
      · split at h <;> cases h
  · intro h
    simp only [applyDocument, h]

/-- What becomes of the edits of a document, for any spans in any order.  It is an error if a span
does not fit the text that was given, or if two spans overlap.  If not, the new text is the old one
with every span replaced at once, parsed if that was, and it is the text of the document, unless it
has faults and the old one had none.  For spans whose ends are in order, the error is an overlap
exactly if two spans overlap, and the two spans that it names are such spans. -/
theorem applyDocument_substitutes (parser : Parser) (d : Document) (edits : List Edit) :
    ((∃ e ∈ edits, ¬ Text.Fits e.span d.text.toList) ∨ ¬ Edit.Apart edits →
      ∃ err, applyDocument parser d edits = .error err) ∧
    ((∀ e ∈ edits, Text.Fits e.span d.text.toList) → Edit.Apart edits →
      ∃ tree : SyntaxTree,
        Text.bytesOf tree.text.toList =
          substitute (Text.bytesOf d.text.toList) 0 (Edit.firstFirst edits) ∧
        (edits = [] → tree = d.tree) ∧
        (d.tree = parser.tree d.text → tree = parser.tree tree.text) ∧
        applyDocument parser d edits =
          if d.tree.hasErrors = false ∧ tree.hasErrors = true then
            .error (.syntaxBroken tree.firstError)
          else .ok (d.withTree tree)) ∧
    ((∀ e ∈ edits, e.span.start ≤ e.span.stop) →
      ((∃ a b, applyDocument parser d edits = .error (.overlappingEdits a b)) ↔
        ¬ Edit.Apart edits)) ∧
    ∀ a b, applyDocument parser d edits = .error (.overlappingEdits a b) →
      a.overlaps b = true ∧ ∃ x y, [x, y].Subperm edits ∧ x.span = a ∧ y.span = b := by
  refine ⟨?_, ?_, ?_, ?_⟩
  · intro hunsound
    have hnot : ¬ Edit.Sound d.text.toList edits := by
      rintro ⟨hfits, hapart⟩
      rcases hunsound with ⟨e, he, hmisfit⟩ | hoverlap
      · exact hmisfit (hfits e he)
      · exact hoverlap hapart
    simp only [applyDocument]
    rcases hfound : findOverlap (Edit.lastFirst edits) with _ | ⟨first, second⟩
    · rcases hmade : replaceAll parser (Edit.lastFirst edits) d.tree with e | tree
      · exact ⟨_, rfl⟩
      · exact absurd (Edit.sound_of_spliceAll hfound (spliceAll_of_replaceAll hmade)) hnot
    · exact ⟨_, rfl⟩
  · intro hfits hapart
    obtain ⟨hfound, new, hnew, hbytes⟩ := Edit.Sound.spliceAll ⟨hfits, hapart⟩
    obtain ⟨tree, hmade, rfl⟩ := exists_of_spliceAll parser hnew
    refine ⟨tree, hbytes, ?_, fun hparsed => parsed_of_replaceAll hparsed hmade, ?_⟩
    · rintro rfl
      rw [Edit.lastFirst, List.mergeSort_nil, replaceAll] at hmade
      exact (Except.ok.inj hmade).symm
    · simp only [applyDocument, hfound, hmade, Bool.and_eq_true, Bool.not_eq_true']
  · intro hordered
    rw [Edit.apart_iff hordered]
    simp only [applyDocument_eq_overlappingEdits_iff]
    rcases findOverlap (Edit.lastFirst edits) with _ | ⟨a, b⟩
    · simp
    · simp
  · intro a b h
    rw [applyDocument_eq_overlappingEdits_iff] at h
    obtain ⟨hoverlap, x, y, hsub, hx, hy⟩ := overlaps_of_findOverlap h
    refine ⟨hoverlap, x, y, ?_, hx, hy⟩
    have hswap : [x, y].Perm [y, x] := List.Perm.swap y x []
    exact (hswap.subperm.trans hsub.subperm).trans (Edit.perm_lastFirst edits).subperm

/-- A parser that finds no fault in any text. -/
def blindParser : Parser := .ofParse fun _ => ⟨default, false⟩

/-- A text with a character of two bytes. -/
def accented : Document where
  id := ⟨1#128⟩
  path := ⟨"src/lib.rs"⟩
  tree := blindParser.tree "aéb"

/-- An edit of that text. -/
def accentedEdit (start stop : Nat) (replacement : String) : Edit where
  id := default
  document := accented.id
  span := ⟨start, stop⟩
  replacement := replacement
  fix := .makePub
  finding := default

theorem applyDocument_substitutes_accented :
    let edits := [accentedEdit 1 3 "", accentedEdit 0 0 "(", accentedEdit 3 4 "xyz"]
    (∀ e ∈ edits, Text.Fits e.span accented.text.toList) ∧ Edit.Apart edits ∧
      ∃ tree : SyntaxTree, Text.bytesOf tree.text.toList = Text.bytesOf "(axyz".toList ∧
        applyDocument blindParser accented edits = .ok (accented.withTree tree) := by
  intro edits
  have hfits : ∀ e ∈ edits, Text.Fits e.span accented.text.toList := by decide +kernel
  have hapart : Edit.Apart edits := by decide +kernel
  obtain ⟨tree, hbytes, -, hparsed, hresult⟩ :=
    (applyDocument_substitutes blindParser accented edits).2.1 hfits hapart
  refine ⟨hfits, hapart, tree, ?_, ?_⟩
  · rw [hbytes]
    cbv
  · have hclean : tree.hasErrors = false := by
      rw [hparsed rfl]
      rfl
    rw [hresult, if_neg]
    rintro ⟨-, hbroken⟩
    cases hclean.symm.trans hbroken

end PubSweep
