import PubSweep.Proofs.Text.Cut
import PubSweep.Syntax.Tree

/-!
Spans of a tree replaced.

A replacement is refused if the span does not lie in the text or cuts through a character, and else
it changes the bytes of the span and no others (`SyntaxTree.replace_splices`).  To put the old bytes
back in the same place gives the old text again.

The parser is told rightly what has changed (`Change.describes_ofSplice`), so the tree of a parsed
text becomes the tree of the new text (`SyntaxTree.replace_of_parsed`).
-/

namespace PubSweep

namespace Text

/-- The offset lies inside a character, between two of its bytes. -/
def Inside (offset : Nat) (cs : List Char) : Prop :=
  ∃ before c after, cs = before ++ c :: after ∧
    byteLength before < offset ∧ offset < byteLength before + c.utf8Size

/-- Up to the end of a text, an offset is a boundary or inside a character. -/
theorem inside_iff {offset : Nat} {cs : List Char} :
    Inside offset cs ↔ offset ≤ byteLength cs ∧ isBoundary offset cs = false := by
  constructor
  · rintro ⟨before, c, after, rfl, hstart, hstop⟩
    refine ⟨by rw [byteLength_append, byteLength_cons]; omega, ?_⟩
    rw [Bool.eq_false_iff, ne_eq]
    induction before generalizing offset with
    | nil =>
        rw [List.nil_append, isBoundary_cons_iff]
        rw [byteLength_nil] at hstart hstop
        rintro (hzero | ⟨rest, hrest, -⟩)
        · omega
        · omega
    | cons d before ih =>
        rw [List.cons_append, isBoundary_cons_iff]
        rw [byteLength_cons] at hstart hstop
        rintro (hzero | ⟨rest, rfl, hcut⟩)
        · omega
        · exact ih (by omega) (by omega) hcut
  · rintro ⟨hle, hcut⟩
    induction cs generalizing offset with
    | nil =>
        obtain rfl : offset = 0 := Nat.le_zero.mp hle
        cases hcut
    | cons c cs ih =>
        rw [Bool.eq_false_iff, ne_eq, isBoundary_cons_iff, not_or] at hcut
        rw [byteLength_cons] at hle
        by_cases hsize : offset < c.utf8Size
        · exact ⟨[], c, cs, rfl, by rw [byteLength_nil]; omega, by rw [byteLength_nil]; omega⟩
        · obtain ⟨rest, rfl⟩ := Nat.exists_eq_add_of_le (Nat.le_of_not_lt hsize)
          obtain ⟨before, d, after, rfl, hstart, hstop⟩ := @ih rest (by omega) (by
            rw [Bool.eq_false_iff, ne_eq]
            exact fun hrest => hcut.2 ⟨rest, rfl, hrest⟩)
          exact ⟨c :: before, d, after, rfl, by rw [byteLength_cons]; omega,
            by rw [byteLength_cons]; omega⟩

instance (offset : Nat) (cs : List Char) : Decidable (Inside offset cs) :=
  decidable_of_iff _ inside_iff.symm

/-- A span fits a text if its ends are in order, lie in the text and cut through no character. -/
theorem fits_iff_not_inside {span : Span} {cs : List Char} :
    Fits span cs ↔ span.start ≤ span.stop ∧ span.stop ≤ byteLength cs ∧
      ¬ Inside span.start cs ∧ ¬ Inside span.stop cs := by
  simp only [inside_iff, not_and, Bool.not_eq_false]
  constructor
  · rintro ⟨hordered, hbounded, hstart, hstop⟩
    exact ⟨hordered, hbounded, fun _ => hstart, fun _ => hstop⟩
  · rintro ⟨hordered, hbounded, hstart, hstop⟩
    exact ⟨hordered, hbounded, hstart (Nat.le_trans hordered hbounded), hstop hbounded⟩

/-- A part of a text is cut out by its offsets. -/
theorem slice?_append {span : Span} {before old : List Char}
    (hstart : byteLength before = span.start)
    (hstop : byteLength before + byteLength old = span.stop) (after : List Char) :
    slice? span (before ++ old ++ after) = some old := by
  have hlength : span.stop - span.start = byteLength old := by omega
  have hfirst : cut? span.start (before ++ old ++ after) = some (before, old ++ after) := by
    rw [← hstart, List.append_assoc, cut?_append]
  simp only [slice?, hlength, hfirst, Option.bind_eq_bind, Option.bind_some, cut?_append,
    Option.pure_def]

/-- When a part of a text is replaced, the bytes before it and behind it stay. -/
theorem bytesOf_replaced {span : Span} {before old : List Char}
    (hstart : byteLength before = span.start)
    (hstop : byteLength before + byteLength old = span.stop) (new after : List Char) :
    bytesOf (before ++ new ++ after) =
      (bytesOf (before ++ old ++ after)).take span.start ++ bytesOf new ++
        (bytesOf (before ++ old ++ after)).drop span.stop := by
  have hfront : (bytesOf before).length = span.start := by
    rw [length_bytesOf, hstart]
  have hback : (bytesOf before ++ bytesOf old).length = span.stop := by
    rw [List.length_append, length_bytesOf, length_bytesOf, hstop]
  simp only [bytesOf_append]
  rw [List.drop_left' hback, List.append_assoc (bytesOf before) (bytesOf old),
    List.take_left' hfront]

theorem splice_eq_outOfBounds {span : Span} {cs : List Char}
    (h : span.stop < span.start ∨ byteLength cs < span.stop) (replacement : List Char) :
    splice span replacement cs = .error (.outOfBounds span (byteLength cs)) := by
  rw [splice, if_pos (by simpa using h)]

theorem splice_eq_notBoundary {span : Span} {cs : List Char} (hordered : span.start ≤ span.stop)
    (hbounded : span.stop ≤ byteLength cs) (h : Inside span.start cs ∨ Inside span.stop cs)
    (replacement : List Char) : splice span replacement cs = .error (.notBoundary span) := by
  rw [splice, if_neg (by simp; omega)]
  split
  case h_1 before rest front after hstart hstop =>
    have hcut : isBoundary span.start cs = true := by
      rw [isBoundary, hstart]
      rfl
    have hcut' : isBoundary span.stop cs = true := by
      rw [isBoundary, hstop]
      rfl
    rcases h with hinside | hinside
    · exact absurd hcut (Bool.eq_false_iff.mp (inside_iff.mp hinside).2)
    · exact absurd hcut' (Bool.eq_false_iff.mp (inside_iff.mp hinside).2)
  case h_2 => rfl

end Text

namespace Syntax

/-- What a parser is told of a replacement is right. -/
theorem Change.describes_ofSplice {span : Span} {replacement old new : List Char}
    (h : Text.splice span replacement old = .ok new) :
    (Change.ofSplice span replacement old new).Describes (Text.bytesOf old)
      (Text.bytesOf new) := by
  obtain ⟨before, removed, after, rfl, hstart, hstop, rfl⟩ := Text.splice_eq_ok_iff.mp h
  have hfront : (Text.bytesOf before).length = span.start := by
    rw [Text.length_bytesOf, hstart]
  have hold : (Text.bytesOf before ++ Text.bytesOf removed).length = span.stop := by
    rw [List.length_append, Text.length_bytesOf, Text.length_bytesOf, hstop]
  have hnew : (Text.bytesOf before ++ Text.bytesOf replacement).length =
      span.start + Text.byteLength replacement := by
    rw [List.length_append, Text.length_bytesOf, Text.length_bytesOf, hstart]
  simp only [Text.bytesOf_append]
  constructor
  case front =>
    simp only [ofSplice, List.append_assoc]
    rw [List.take_left' hfront, List.take_left' hfront]
  case back =>
    simp only [ofSplice]
    rw [List.drop_left' hnew, List.drop_left' hold]
  case oldOrdered =>
    simp only [ofSplice]
    rw [List.length_append, hold]
    omega
  case newOrdered =>
    simp only [ofSplice]
    rw [List.length_append, hnew]
    omega
  all_goals simp only [ofSplice, Text.bytesOf_append]

namespace SyntaxTree

section

variable {parser : Parser} {t new : SyntaxTree} {span : Span} {replacement : String}

theorem splice_of_replace (h : t.replace parser span replacement = .ok new) :
    Text.splice span replacement.toList t.text.toList = .ok new.text.toList := by
  rw [replace] at h
  split at h
  · cases h
    rw [String.toList_ofList]
    assumption
  · cases h

theorem exists_of_splice (parser : Parser) {cs : List Char}
    (h : Text.splice span replacement.toList t.text.toList = .ok cs) :
    ∃ new, t.replace parser span replacement = .ok new ∧ new.text.toList = cs := by
  rw [replace, h]
  exact ⟨_, rfl, String.toList_ofList⟩

/-- The tree of a parsed text becomes the tree of the new text. -/
theorem replace_of_parsed (ht : t = parser.tree t.text) {cs : List Char}
    (h : Text.splice span replacement.toList t.text.toList = .ok cs) :
    t.replace parser span replacement = .ok (parser.tree (String.ofList cs)) := by
  have hparsed : t.parsed = parser.parse t.text := congrArg SyntaxTree.parsed ht
  have hdescribes := Change.describes_ofSplice h
  rw [replace, h, Parser.tree, ← parser.reparse_eq t _ _ hparsed]
  rwa [String.toList_ofList]

theorem parsed_of_replace (ht : t = parser.tree t.text)
    (h : t.replace parser span replacement = .ok new) : new = parser.tree new.text := by
  rw [replace_of_parsed ht (splice_of_replace h), String.ofList_toList] at h
  exact (Except.ok.inj h).symm

end

variable (parser : Parser) (t : SyntaxTree) (span : Span) (replacement : String)

/-- What a replacement does, for any span.  It is refused if the ends of the span are in the wrong
order or the text ends before it, and next if an end lies inside a character.  Else the slices of
the text exist and the span is no longer than the text, and the new text is the old one with the
bytes of the span replaced.  The old slice can then be put back where the replacement stands, and
that gives the old text.  From the tree that the parser makes of the old text, these steps come to
the tree that it makes of the new text and back to the old tree. -/
theorem replace_splices :
    (span.stop < span.start ∨ t.length < span.stop →
      t.replace parser span replacement = .error (.outOfBounds span t.length)) ∧
    (span.start ≤ span.stop → span.stop ≤ t.length →
      Text.Inside span.start t.text.toList ∨ Text.Inside span.stop t.text.toList →
        t.replace parser span replacement = .error (.notBoundary span)) ∧
    (span.start ≤ span.stop → span.stop ≤ t.length →
      ¬ Text.Inside span.start t.text.toList → ¬ Text.Inside span.stop t.text.toList →
        ∃ before old after new, Text.slice? ⟨0, span.start⟩ t.text.toList = some before ∧
          Text.slice? span t.text.toList = some old ∧
          Text.slice? ⟨span.stop, t.length⟩ t.text.toList = some after ∧
          span.length ≤ t.length ∧
          t.replace parser span replacement = .ok new ∧
          new.text.toList = before ++ replacement.toList ++ after ∧
          Text.bytesOf new.text.toList = (Text.bytesOf t.text.toList).take span.start ++
            Text.bytesOf replacement.toList ++ (Text.bytesOf t.text.toList).drop span.stop ∧
          ∃ back, new.replace parser ⟨span.start, span.start + Text.byteLength replacement.toList⟩
              (String.ofList old) = .ok back ∧
            back.text = t.text ∧
            (t = parser.tree t.text → new = parser.tree new.text ∧ back = t)) := by
  refine ⟨?_, ?_, ?_⟩
  · intro hbounds
    rw [replace, Text.splice_eq_outOfBounds hbounds]
    rfl
  · intro hordered hbounded hinside
    rw [replace, Text.splice_eq_notBoundary hordered hbounded hinside]
  · intro hordered hbounded hstart hstop
    obtain ⟨before, old, after, htext, hbefore, hold⟩ :=
      Text.fits_iff.mp (Text.fits_iff_not_inside.mpr ⟨hordered, hbounded, hstart, hstop⟩)
    have hlength : t.length = Text.byteLength before + Text.byteLength old +
        Text.byteLength after := by
      rw [length, htext, Text.byteLength_append, Text.byteLength_append]
    have hsplice := Text.splice_append hbefore hold replacement.toList after
    rw [← htext] at hsplice
    obtain ⟨new, hnew, hnewText⟩ := exists_of_splice parser hsplice
    have hundo := @Text.splice_append
      ⟨span.start, span.start + Text.byteLength replacement.toList⟩ before replacement.toList
      hbefore (by rw [hbefore]) old after
    rw [← hnewText, ← @String.toList_ofList old] at hundo
    obtain ⟨back, hback, hbackText⟩ := exists_of_splice parser hundo
    rw [String.toList_ofList, ← htext, String.toList_inj] at hbackText
    refine ⟨before, old, after, new, ?_, ?_, ?_, ?_, hnew, hnewText, ?_, back, hback, hbackText, ?_⟩
    · rw [htext]
      simpa using @Text.slice?_append ⟨0, span.start⟩ [] before rfl (by simpa using hbefore)
        (old ++ after)
    · rw [htext]
      exact Text.slice?_append hbefore hold after
    · rw [htext]
      simpa using @Text.slice?_append ⟨span.stop, t.length⟩ (before ++ old) after
        (by simpa using hold) (by simpa using hlength.symm) []
    · rw [Span.length]
      omega
    · rw [hnewText, htext]
      exact Text.bytesOf_replaced hbefore hold replacement.toList after
    · intro ht
      have hparsed := parsed_of_replace ht hnew
      have hreparsed := parsed_of_replace hparsed hback
      refine ⟨hparsed, ?_⟩
      rw [hreparsed, hbackText, ← ht]

theorem replace_splices_accented :
    let t : SyntaxTree := ⟨"aéb", ⟨default, false⟩⟩
    let parser : Parser := .ofParse fun _ => ⟨default, false⟩
    let far : Span := ⟨0, 18446744073709551615⟩
    t.replace parser ⟨3, 1⟩ "" = .error (.outOfBounds ⟨3, 1⟩ t.length) ∧
      t.replace parser far "" = .error (.outOfBounds far t.length) ∧
      t.replace parser ⟨0, 2⟩ "" = .error (.notBoundary ⟨0, 2⟩) ∧
      ∃ new back, t.replace parser ⟨1, 3⟩ "xyz" = .ok new ∧ new.text.toList = "axyzb".toList ∧
        new.replace parser ⟨1, 1 + Text.byteLength "xyz".toList⟩ (String.ofList ['é']) = .ok back ∧
        back.text = "aéb" := by
  intro t parser far
  have hlength : t.length = 4 := by decide +kernel
  have hinside : Text.Inside 2 t.text.toList := by decide +kernel
  have hmade := (replace_splices parser t ⟨1, 3⟩ "xyz").2.2 (by decide) (by rw [hlength]; decide)
    (by decide +kernel) (by decide +kernel)
  obtain ⟨before, old, after, new, hbefore, hold, hafter, -, hnew, htext, -, back, hback, hsame,
    -⟩ := hmade
  obtain rfl : ['a'] = before := by
    rw [← Option.some.injEq, ← hbefore]
    decide +kernel
  obtain rfl : ['é'] = old := by
    rw [← Option.some.injEq, ← hold]
    decide +kernel
  obtain rfl : ['b'] = after := by
    rw [← Option.some.injEq, ← hafter]
    decide +kernel
  refine ⟨(replace_splices parser t ⟨3, 1⟩ "").1 (Or.inl (by decide)),
    (replace_splices parser t far "").1 (Or.inr (by rw [hlength]; decide)),
    (replace_splices parser t ⟨0, 2⟩ "").2.1 (by decide) (by rw [hlength]; decide)
      (Or.inr hinside), new, back, hnew, ?_, hback, hsame⟩
  rw [htext]
  decide +kernel

end SyntaxTree

end Syntax

end PubSweep
