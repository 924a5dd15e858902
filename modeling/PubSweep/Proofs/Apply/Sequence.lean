import PubSweep.Proofs.Apply.Substitution

/-!
Edits made one at a time, in any order.

Made from the last to the first, edits find their places unmoved.  In any other order a place has
moved by what the edits in front of it have put in and taken out.  Two edits that are made one after
the other can change places (`spliceEach_swap`), so all orders give the same text, that of the last
first, and the same tree if the first tree was parsed (`editEach_applies`).
-/

namespace PubSweep

open Syntax

namespace Text

/-- Behind the first part of a text, boundaries are those of the rest. -/
theorem isBoundary_behind (before cs : List Char) (offset : Nat) :
    isBoundary (byteLength before + offset) (before ++ cs) = isBoundary offset cs := by
  induction before with
  | nil => simp
  | cons c before ih =>
      have hpos := c.utf8Size_pos
      rw [← ih, Bool.eq_iff_iff, List.cons_append, isBoundary_cons_iff, byteLength_cons]
      constructor
      · rintro (hzero | ⟨rest, hrest, hcut⟩)
        · omega
        · have hoffset : byteLength before + offset = rest := by omega
          rw [hoffset]
          exact hcut
      · intro hcut
        exact Or.inr ⟨byteLength before + offset, by omega, hcut⟩

/-- A span behind the first part of a text fits if it fits the rest. -/
theorem fits_behind_iff {start stop : Nat} {before cs : List Char} :
    Fits ⟨byteLength before + start, byteLength before + stop⟩ (before ++ cs) ↔
      Fits ⟨start, stop⟩ cs := by
  constructor
  · rintro ⟨hordered, hbounded, hstart, hstop⟩
    simp only [byteLength_append, isBoundary_behind] at hordered hbounded hstart hstop
    exact ⟨by simp only; omega, by simp only; omega, hstart, hstop⟩
  · rintro ⟨hordered, hbounded, hstart, hstop⟩
    simp only at hordered hbounded
    exact ⟨by simp only; omega, by simp only [byteLength_append]; omega,
      by rw [isBoundary_behind]; exact hstart, by rw [isBoundary_behind]; exact hstop⟩

/-- A span behind a part of a text that is replaced moves, and still fits. -/
theorem Fits.behind {span moved : Span} {before old after : List Char}
    (h : Fits span (before ++ old ++ after)) (hbehind : byteLength (before ++ old) ≤ span.start)
    (new : List Char) (hstart : moved.start + byteLength old = span.start + byteLength new)
    (hstop : moved.stop + byteLength old = span.stop + byteLength new) :
    Fits moved (before ++ new ++ after) := by
  obtain ⟨start, stop⟩ := span
  obtain ⟨start', stop'⟩ := moved
  have hordered := h.ordered
  simp only at hbehind hstart hstop hordered
  obtain ⟨s, rfl⟩ := Nat.exists_eq_add_of_le hbehind
  obtain ⟨t, rfl⟩ := Nat.exists_eq_add_of_le (Nat.le_trans hbehind hordered)
  rw [byteLength_append] at hstart hstop
  obtain rfl : start' = byteLength (before ++ new) + s := by
    rw [byteLength_append]
    omega
  obtain rfl : stop' = byteLength (before ++ new) + t := by
    rw [byteLength_append]
    omega
  exact fits_behind_iff.mpr (fits_behind_iff.mp h)

/-- Of two spans that follow one another, each can be replaced before the other.  The second moves
by what the first has put in and taken out. -/
theorem splice_both {first second moved : Span} {cs : List Char} (hfirst : Fits first cs)
    (hsecond : Fits second cs) (hbehind : first.stop ≤ second.start) (new new' : List Char)
    (hstart : moved.start + first.length = second.start + byteLength new)
    (hstop : moved.stop + first.length = second.stop + byteLength new) :
    ∃ one other both, splice first new cs = .ok one ∧ splice moved new' one = .ok both ∧
      splice second new' cs = .ok other ∧ splice first new other = .ok both := by
  obtain ⟨front, old', after, rfl, hfront, hold'⟩ := fits_iff.mp hsecond
  have hin : Fits first (front ++ []) :=
    fits_append (hfront ▸ hbehind) (old' ++ after) [] (by rw [← List.append_assoc]; exact hfirst)
  rw [List.append_nil] at hin
  obtain ⟨before, old, between, rfl, hbefore, hold⟩ := fits_iff.mp hin
  have hlength : byteLength old = first.length := by
    rw [Span.length]
    omega
  simp only [byteLength_append] at hfront hold'
  refine ⟨before ++ new ++ (between ++ old' ++ after), before ++ old ++ between ++ new' ++ after,
    before ++ new ++ between ++ new' ++ after, ?_, ?_, ?_, ?_⟩
  · have hsplice := splice_append hbefore hold new (between ++ old' ++ after)
    simpa only [List.append_assoc] using hsplice
  · have hsplice := @splice_append moved (before ++ new ++ between) old'
      (by simp only [byteLength_append]; omega) (by simp only [byteLength_append]; omega) new' after
    simpa only [List.append_assoc] using hsplice
  · exact splice_append (by simp only [byteLength_append]; omega)
      (by simp only [byteLength_append]; omega) new' after
  · have hsplice := splice_append hbefore hold new (between ++ new' ++ after)
    simpa only [List.append_assoc] using hsplice

end Text

/-! ### Places that move -/

/-- By how much an edit changes the length of a text. -/
def Edit.growth (e : Edit) : Int := Text.byteLength e.replacement.toList - e.span.length

/-- By how much edits have moved an offset: those count that start in front of it. -/
def drift : (made : List Edit) → (offset : Nat) → Int
  | [], _ => 0
  | e :: made, offset => (if e.span.start < offset then e.growth else 0) + drift made offset

/-- Where a span has moved to when some edits are made. -/
def Span.moved (span : Span) (made : List Edit) : Span :=
  ⟨(span.start + drift made span.start).toNat, (span.stop + drift made span.start).toNat⟩

/-- Makes edits one after the other in the given order, each at the place to which those made before
have moved it. -/
def editEach (parser : Parser) : (made : List Edit) → List Edit → SyntaxTree →
    Except Text.SpanError SyntaxTree
  | _, [], t => .ok t
  | made, e :: es, t =>
    match t.replace parser (e.span.moved made) e.replacement with
    | .ok t => editEach parser (e :: made) es t
    | .error err => .error err

/-- What this makes of the text. -/
def spliceEach : (made : List Edit) → List Edit → List Char → Except Text.SpanError (List Char)
  | _, [], cs => .ok cs
  | made, e :: es, cs =>
    match Text.splice (e.span.moved made) e.replacement.toList cs with
    | .ok cs => spliceEach (e :: made) es cs
    | .error err => .error err

theorem exists_of_spliceEach (parser : Parser) {made es : List Edit} {t : SyntaxTree}
    {new : List Char} (h : spliceEach made es t.text.toList = .ok new) :
    ∃ tree, editEach parser made es t = .ok tree ∧ tree.text.toList = new := by
  induction es generalizing made t with
  | nil =>
      cases h
      exact ⟨t, rfl, rfl⟩
  | cons e es ih =>
      rw [spliceEach] at h
      split at h
      case h_2 => cases h
      case h_1 cs hsplice =>
        obtain ⟨next, hnext, rfl⟩ := SyntaxTree.exists_of_splice parser hsplice
        rw [editEach, hnext]
        exact ih h

theorem parsed_of_editEach {parser : Parser} {made es : List Edit} {t tree : SyntaxTree}
    (ht : t = parser.tree t.text) (h : editEach parser made es t = .ok tree) :
    tree = parser.tree tree.text := by
  induction es generalizing made t with
  | nil =>
      cases h
      exact ht
  | cons e es ih =>
      rw [editEach] at h
      split at h
      · exact ih (SyntaxTree.parsed_of_replace ht ‹_›) h
      · cases h

theorem drift_cons_of_lt {e : Edit} {offset : Nat} (h : e.span.start < offset)
    (made : List Edit) : drift (e :: made) offset = e.growth + drift made offset := by
  rw [drift, if_pos h]

theorem drift_cons_of_le {e : Edit} {offset : Nat} (h : offset ≤ e.span.start)
    (made : List Edit) : drift (e :: made) offset = drift made offset := by
  rw [drift, if_neg (Nat.not_lt.mpr h), Int.zero_add]

theorem drift_of_perm {made made' : List Edit} (h : made.Perm made') :
    drift made = drift made' := by
  funext offset
  induction h with
  | nil => rfl
  | cons e _ ih => rw [drift, drift, ih]
  | swap a b made =>
      simp only [drift]
      omega
  | trans _ _ ih ih' => exact ih.trans ih'

theorem Span.moved_nil (span : Span) : span.moved [] = span := by
  simp [moved, drift]

/-- Edits that start behind a span leave the span where it is. -/
theorem Span.moved_of_le {span : Span} {made : List Edit}
    (h : ∀ e ∈ made, span.start ≤ e.span.start) : span.moved made = span := by
  have hnone : drift made span.start = 0 := by
    induction made with
    | nil => rfl
    | cons e made ih =>
        rw [drift_cons_of_le (h e List.mem_cons_self)]
        exact ih fun f hf => h f (List.mem_cons_of_mem e hf)
  simp [moved, hnone]

/-! ### Edits still to be made -/

/-- The first edit starts in front of the second, and ends before it also in a text to which some
edits are made already. -/
def Edit.Before (made : List Edit) (a b : Edit) : Prop :=
  a.span.start < b.span.start ∧ (a.span.moved made).stop ≤ (b.span.moved made).start

/-- When an edit is made, the spans in front of it stay where they are. -/
theorem Edit.Before.moved_cons {made : List Edit} {e f : Edit} (h : Edit.Before made f e) :
    f.span.moved (e :: made) = f.span.moved made := by
  rw [Span.moved, Span.moved, drift_cons_of_le (Nat.le_of_lt h.1)]

/-- The spans of edits that are still to be made fit a text that others have changed, and are apart
there. -/
structure Pending (made es : List Edit) (cs : List Char) : Prop where
  ordered : ∀ e ∈ es, e.span.start ≤ e.span.stop
  /-- No span has moved out of the text at its start. -/
  inside : ∀ e ∈ es, 0 ≤ e.span.start + drift made e.span.start
  fits : ∀ e ∈ es, Text.Fits (e.span.moved made) cs
  apart : es.Pairwise fun a b => Edit.Before made a b ∨ Edit.Before made b a

namespace Pending

variable {made es : List Edit} {cs : List Char} {e : Edit}

theorem of_perm {es' : List Edit} (h : Pending made es cs) (hperm : es.Perm es') :
    Pending made es' cs where
  ordered f hf := h.ordered f (hperm.mem_iff.mpr hf)
  inside f hf := h.inside f (hperm.mem_iff.mpr hf)
  fits f hf := h.fits f (hperm.mem_iff.mpr hf)
  apart := (hperm.pairwise_iff fun hab => hab.symm).mp h.apart

/-- Edits of which no two overlap can be made in the text that was given. -/
theorem of_sound (h : Edit.Sound cs es) : Pending [] es cs where
  ordered f hf := (h.1 f hf).ordered
  inside f _ := by simp [drift]
  fits f hf := by
    rw [Span.moved_nil]
    exact h.1 f hf
  apart := by
    refine List.Pairwise.imp_of_mem ?_ h.2
    intro a b ha hb hoverlap
    have haspan := (h.1 a ha).ordered
    have hbspan := (h.1 b hb).ordered
    rw [Bool.eq_false_iff, ne_eq, Span.overlaps_iff] at hoverlap
    simp only [Edit.Before, Span.moved_nil]
    omega

/-- A span keeps its length when it moves. -/
theorem length_moved (h : Pending made (e :: es) cs) :
    (e.span.moved made).start + e.span.length = (e.span.moved made).stop := by
  have hordered := h.ordered e List.mem_cons_self
  have hinside := h.inside e List.mem_cons_self
  simp only [Span.moved, Span.length]
  omega

/-- When an edit is made, the spans behind it move by what it has put in and taken out. -/
theorem moved_cons (h : Pending made (e :: es) cs) {f : Edit} (hf : f ∈ es)
    (hbehind : Edit.Before made e f) :
    (f.span.moved (e :: made)).start + e.span.length =
        (f.span.moved made).start + Text.byteLength e.replacement.toList ∧
      (f.span.moved (e :: made)).stop + e.span.length =
        (f.span.moved made).stop + Text.byteLength e.replacement.toList ∧
      0 ≤ f.span.start + drift (e :: made) f.span.start := by
  have hlength := h.length_moved
  have hordered := h.ordered f (List.mem_cons_of_mem e hf)
  have hinside := h.inside f (List.mem_cons_of_mem e hf)
  obtain ⟨hlt, hle⟩ := hbehind
  simp only [Span.moved, drift_cons_of_lt hlt, Edit.growth] at hlength hle ⊢
  omega

/-- When an edit is made, those of which one comes before the other stay so. -/
theorem before_cons (h : Pending made (e :: es) cs) {a b : Edit} (ha : a ∈ es) (hb : b ∈ es)
    (hab : Edit.Before made a b) : Edit.Before (e :: made) a b := by
  refine ⟨hab.1, ?_⟩
  have hle := hab.2
  rcases List.rel_of_pairwise_cons h.apart ha with hea | hae
  · have hmoved := h.moved_cons ha hea
    rcases List.rel_of_pairwise_cons h.apart hb with heb | hbe
    · have hmoved' := h.moved_cons hb heb
      omega
    · -- The edit cannot be in front of the first and behind the second.
      exact absurd (Nat.lt_trans (Nat.lt_trans hea.1 hab.1) hbe.1) (Nat.lt_irrefl _)
  · rw [hae.moved_cons]
    rcases List.rel_of_pairwise_cons h.apart hb with heb | hbe
    · -- One is in front of the edit and the other behind it.
      have hlength := h.length_moved
      have hmoved' := h.moved_cons hb heb
      have hfront := hae.2
      have hbehind := heb.2
      omega
    · rw [hbe.moved_cons]
      exact hle

/-- The next edit can be made, and the others are then still to be made. -/
theorem step (h : Pending made (e :: es) cs) :
    ∃ new, Text.splice (e.span.moved made) e.replacement.toList cs = .ok new ∧
      Pending (e :: made) es new := by
  have hlength := h.length_moved
  obtain ⟨before, old, after, rfl, hstart, hstop⟩ :=
    Text.fits_iff.mp (h.fits e List.mem_cons_self)
  refine ⟨_, Text.splice_append hstart hstop e.replacement.toList after, ?_⟩
  constructor
  case ordered => exact fun f hf => h.ordered f (List.mem_cons_of_mem e hf)
  case inside =>
    intro f hf
    rcases List.rel_of_pairwise_cons h.apart hf with hbehind | hfront
    · exact (h.moved_cons hf hbehind).2.2
    · rw [drift_cons_of_le (Nat.le_of_lt hfront.1)]
      exact h.inside f (List.mem_cons_of_mem e hf)
  case fits =>
    intro f hf
    have hfits := h.fits f (List.mem_cons_of_mem e hf)
    rcases List.rel_of_pairwise_cons h.apart hf with hbehind | hfront
    · have hstart' := hbehind.2
      obtain ⟨hnext, hnext', -⟩ := h.moved_cons hf hbehind
      exact hfits.behind (by rw [Text.byteLength_append]; omega) e.replacement.toList (by omega)
        (by omega)
    · have hstop' := hfront.2
      rw [hfront.moved_cons, List.append_assoc]
      rw [List.append_assoc] at hfits
      exact Text.fits_append (by omega) _ _ hfits
  case apart =>
    refine List.Pairwise.imp_of_mem ?_ (List.pairwise_cons.mp h.apart).2
    intro a b ha hb hab
    exact hab.imp (h.before_cons ha hb) (h.before_cons hb ha)

end Pending

/-! ### Orders -/

section

variable {made es : List Edit} {cs : List Char}

theorem spliceEach_cons {e : Edit} {next : List Char}
    (h : Text.splice (e.span.moved made) e.replacement.toList cs = .ok next) :
    spliceEach made (e :: es) cs = spliceEach (e :: made) es next := by
  rw [spliceEach, h]

/-- It makes no difference in which order edits were made. -/
theorem spliceEach_of_made_perm {made' : List Edit} (h : made.Perm made') :
    spliceEach made es cs = spliceEach made' es cs := by
  induction es generalizing made made' cs with
  | nil => rfl
  | cons e es ih =>
      have hmoved : e.span.moved made = e.span.moved made' := by
        rw [Span.moved, Span.moved, drift_of_perm h]
      rw [spliceEach, spliceEach, hmoved]
      cases Text.splice (e.span.moved made') e.replacement.toList cs with
      | error err => rfl
      | ok next => exact ih (h.cons e)

/-- Two edits that are made one after the other can change places. -/
theorem spliceEach_swap_of_before {a b : Edit} (h : Pending made (a :: b :: es) cs)
    (hab : Edit.Before made a b) :
    spliceEach made (a :: b :: es) cs = spliceEach made (b :: a :: es) cs := by
  have hlength := h.length_moved
  obtain ⟨hstart, hstop, -⟩ := h.moved_cons List.mem_cons_self hab
  have hfirst : (a.span.moved made).length = a.span.length := by
    rw [Span.length]
    omega
  obtain ⟨one, other, both, hone, hboth, hother, hboth'⟩ := Text.splice_both
    (h.fits a List.mem_cons_self) (h.fits b (List.mem_cons_of_mem a List.mem_cons_self)) hab.2
    a.replacement.toList b.replacement.toList (hfirst ▸ hstart) (hfirst ▸ hstop)
  rw [← hab.moved_cons] at hboth'
  rw [spliceEach_cons hone, spliceEach_cons hboth, spliceEach_cons hother, spliceEach_cons hboth']
  exact spliceEach_of_made_perm (.swap a b made)

theorem spliceEach_swap {a b : Edit} (h : Pending made (a :: b :: es) cs) :
    spliceEach made (a :: b :: es) cs = spliceEach made (b :: a :: es) cs := by
  rcases List.rel_of_pairwise_cons h.apart List.mem_cons_self with hab | hba
  · exact spliceEach_swap_of_before h hab
  · exact (spliceEach_swap_of_before (h.of_perm (.swap b a es)) hba).symm

/-- Edits that are apart give the same text in any order. -/
theorem spliceEach_of_perm {es' : List Edit} (hperm : es.Perm es') (h : Pending made es cs) :
    spliceEach made es cs = spliceEach made es' cs := by
  induction hperm generalizing made cs with
  | nil => rfl
  | cons e hperm ih =>
      obtain ⟨new, hnew, hrest⟩ := h.step
      rw [spliceEach_cons hnew, spliceEach_cons hnew]
      exact ih hrest
  | swap a b es => exact spliceEach_swap h
  | trans hfirst hsecond ih ih' => exact (ih h).trans (ih' (h.of_perm hfirst))

/-- From the last to the first, edits are made at the places where they were found. -/
theorem spliceEach_of_descending
    (hdescending : es.Pairwise fun a b => b.span.start < a.span.start)
    (hmade : ∀ e ∈ es, ∀ f ∈ made, e.span.start ≤ f.span.start) :
    spliceEach made es cs = spliceAll es cs := by
  induction es generalizing made cs with
  | nil => rfl
  | cons e es ih =>
      obtain ⟨hfirst, hrest⟩ := List.pairwise_cons.mp hdescending
      rw [spliceEach, spliceAll, Span.moved_of_le (hmade e List.mem_cons_self)]
      cases Text.splice e.span e.replacement.toList cs with
      | error err => rfl
      | ok next =>
          apply ih hrest
          intro f hf g hg
          rcases List.mem_cons.mp hg with rfl | hg
          · exact Nat.le_of_lt (hfirst f hf)
          · exact hmade f (List.mem_cons_of_mem e hf) g hg

end

/-- Edits of which no two overlap, and which fit the text of a document, are made in any order
without an error, each at the place to which those before have moved it.  They give the text that
is made from the last edit to the first, and from a parsed document the same tree, so they give what
becomes of the document. -/
theorem editEach_applies (parser : Parser) (d : Document) {edits es : List Edit}
    (hsound : Edit.Sound d.text.toList edits) (hperm : es.Perm edits) :
    ∃ tree last, editEach parser [] es d.tree = .ok tree ∧
      replaceAll parser (Edit.lastFirst edits) d.tree = .ok last ∧ tree.text = last.text ∧
      (d.tree = parser.tree d.text → tree = last) ∧
      applyDocument parser d edits =
        if d.tree.hasErrors = false ∧ last.hasErrors = true then
          .error (.syntaxBroken last.firstError)
        else .ok (d.withTree last) := by
  obtain ⟨hfound, new, hnew, -⟩ := hsound.spliceAll
  have hlast := Edit.perm_lastFirst edits
  have hpending : Pending [] es d.text.toList := (Pending.of_sound hsound).of_perm hperm.symm
  have hdescending : (Edit.lastFirst edits).Pairwise fun a b => b.span.start < a.span.start :=
    (descending_of_findOverlap (Edit.pairwise_lastFirst edits)
      (fun e he => (hsound.1 e (hlast.mem_iff.mp he)).ordered) hfound).imp And.left
  have hsame : spliceEach [] es d.text.toList = .ok new := by
    rw [spliceEach_of_perm (hperm.trans hlast.symm) hpending,
      spliceEach_of_descending hdescending fun _ _ _ hf => absurd hf List.not_mem_nil, hnew]
  obtain ⟨tree, hedit, htree⟩ := exists_of_spliceEach parser hsame
  obtain ⟨last, hmade, hlastText⟩ := exists_of_spliceAll parser hnew
  have htext : tree.text = last.text := String.toList_inj.mp (htree.trans hlastText.symm)
  refine ⟨tree, last, hedit, hmade, htext, ?_, ?_⟩
  · intro hparsed
    rw [parsed_of_editEach hparsed hedit, parsed_of_replaceAll hparsed hmade, htext]
  · simp only [applyDocument, hfound, hmade, Bool.and_eq_true, Bool.not_eq_true']

theorem editEach_applies_accented :
    let edits := [accentedEdit 0 0 "(", accentedEdit 1 3 "", accentedEdit 3 4 "xyz"]
    let es := [accentedEdit 1 3 "", accentedEdit 3 4 "xyz", accentedEdit 0 0 "("]
    Edit.Sound accented.text.toList edits ∧ es.Perm edits ∧
      ∃ tree, editEach blindParser [] es accented.tree = .ok tree ∧
        tree.text.toList = "(axyz".toList ∧
        applyDocument blindParser accented edits = .ok (accented.withTree tree) := by
  intro edits es
  have hsound : Edit.Sound accented.text.toList edits := by
    constructor
    · decide +kernel
    · decide +kernel
  have hperm : es.Perm edits := by decide +kernel
  obtain ⟨tree, last, hedit, hmade, htext, hparsed, hresult⟩ :=
    editEach_applies blindParser accented hsound hperm
  have horder : Edit.lastFirst edits =
      [accentedEdit 3 4 "xyz", accentedEdit 1 3 "", accentedEdit 0 0 "("] := by cbv
  have hsplice : spliceAll [accentedEdit 3 4 "xyz", accentedEdit 1 3 "", accentedEdit 0 0 "("]
      accented.text.toList = .ok "(axyz".toList := by decide +kernel
  have hsame : accented.text = accented.tree.text := rfl
  rw [horder] at hmade
  have hlast := Except.ok.inj ((spliceAll_of_replaceAll hmade).symm.trans (hsame ▸ hsplice))
  obtain rfl := hparsed rfl
  have hclean : tree.hasErrors = false := by
    rw [parsed_of_replaceAll rfl hmade]
    rfl
  refine ⟨hsound, hperm, tree, hedit, hlast, ?_⟩
  rw [hresult, if_neg]
  rintro ⟨-, hbroken⟩
  cases hclean.symm.trans hbroken

end PubSweep
