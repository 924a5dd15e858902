import PubSweep.Proofs.Syntax.Replacement
import PubSweep.Proofs.Text.Position

/-!
Positions in the text of a tree, and what a replacement does to them.

An extent is reached in one way only: a later offset has a later position, and a position leads back
to its offset (`SyntaxTree.position_identifies`).  When a span is replaced, what was behind it stays
as far behind the end of the span as before (`SyntaxTree.positions_compose`).
-/

namespace PubSweep

/-- Positions are in the order of their lines, and those of one line in the order of their
columns. -/
def Position.Before (p q : Position) : Prop :=
  p.line < q.line ∨ p.line = q.line ∧ p.column < q.column

instance : DecidableRel Position.Before := fun _ _ => inferInstanceAs (Decidable (_ ∨ _))

namespace Text

/-- With more bytes behind it, a place comes later. -/
theorem before_add_ofBytes (e : Extent) {bytes : List UInt8} (h : bytes ≠ []) :
    e.toPosition.Before (e + .ofBytes bytes).toPosition := by
  rw [Extent.add_eq]
  split
  case isTrue hrows =>
    left
    simp only [Extent.toPosition]
    omega
  case isFalse hrows =>
    have hcolumns := columns_ofBytes_of_rows (Nat.eq_zero_of_not_pos hrows)
    have hlength := List.length_pos_iff.mpr h
    right
    simp only [Extent.toPosition, true_and]
    omega

theorem position_before {cs : List Char} {i j : Nat} (hlt : i < j) (hj : j ≤ byteLength cs) :
    (position cs i).Before (position cs j) := by
  have hbetween : ((bytesOf cs).take j).drop i ≠ [] := by
    rw [List.ne_nil_iff_length_pos, List.length_drop, List.length_take, length_bytesOf]
    omega
  rw [position, position, Extent.before_eq_add (Nat.le_of_lt hlt)]
  exact before_add_ofBytes _ hbetween

/-- The extent before an offset counts from the start of a line. -/
theorem lineStarts_before {bytes : List UInt8} {offset : Nat} (h : offset ≤ bytes.length) :
    ∃ start, (lineStarts bytes)[(Extent.before bytes offset).rows]? = some start ∧
      start + (Extent.before bytes offset).columns = offset := by
  obtain ⟨start, hstart, hlength⟩ := lineStarts_ofBytes (bytes.take offset)
  rw [List.length_take, Nat.min_eq_left h] at hlength
  refine ⟨start, ?_, hlength⟩
  have hlines := lineStarts_append (bytes.take offset) (bytes.drop offset)
  rw [List.take_append_drop] at hlines
  rw [Extent.before, hlines, List.getElem?_append_left (List.getElem?_eq_some_iff.mp hstart).1]
  exact hstart

/-- Past the end of a text, all offsets have the position of the end. -/
theorem position_of_le {cs : List Char} {offset : Nat} (h : byteLength cs ≤ offset) :
    position cs offset = position cs (byteLength cs) := by
  rw [← length_bytesOf] at h ⊢
  rw [position, position, Extent.before, Extent.before, List.take_of_length_le h, List.take_length]

end Text

namespace Syntax

/-- The points of a change stand where its offsets do.  The bytes before its start are the same in
the old text and the new one, and each end is as far behind the start as the bytes between reach. -/
structure Change.Agrees (c : Change) (old new : List UInt8) : Prop where
  start : c.startPoint = .before old c.start ∧ c.startPoint = .before new c.start
  oldStop : c.oldStopPoint = .before old c.oldStop ∧
    c.oldStopPoint = c.startPoint + .ofBytes ((old.take c.oldStop).drop c.start)
  newStop : c.newStopPoint = .before new c.newStop ∧
    c.newStopPoint = c.startPoint + .ofBytes ((new.take c.newStop).drop c.start)

namespace SyntaxTree

/-- The position of an offset says which one it is.  Of two offsets in a text the later one has the
later position.  The offset is as many bytes behind the start of its line as the column says, and
the line is that of the position.  An offset past the end has the position of the end. -/
theorem position_identifies (t : SyntaxTree) :
    (∀ i j, i < j → j ≤ t.length → (t.position i).Before (t.position j)) ∧
    (∀ i ≤ t.length, 0 < (t.position i).line ∧ 0 < (t.position i).column ∧
      ∃ start, (Text.lineStarts (Text.bytesOf t.text.toList))[(t.position i).line - 1]? =
          some start ∧ i = start + (t.position i).column - 1) ∧
    ∀ i, t.length < i → t.position i = t.position t.length := by
  refine ⟨?_, ?_, ?_⟩
  · intro i j hlt hj
    exact Text.position_before hlt hj
  · intro i hi
    have hbytes : i ≤ (Text.bytesOf t.text.toList).length := by
      rw [Text.length_bytesOf]
      exact hi
    obtain ⟨start, hstart, hoffset⟩ := Text.lineStarts_before hbytes
    exact ⟨Nat.succ_pos _, Nat.succ_pos _, start, hstart, hoffset.symm⟩
  · intro i hi
    exact Text.position_of_le (Nat.le_of_lt hi)

theorem position_identifies_lines :
    let t : SyntaxTree := ⟨"é\n\nb\n", ⟨default, false⟩⟩
    (t.position 2).Before (t.position 3) ∧ (t.position 3).Before (t.position 4) ∧
      (∃ start, (Text.lineStarts (Text.bytesOf t.text.toList))[(t.position 5).line - 1]? =
        some start ∧ 5 = start + (t.position 5).column - 1) ∧
      t.position 99 = ⟨4, 1⟩ := by
  intro t
  have hlength : t.length = 6 := by decide +kernel
  have hend : t.position t.length = ⟨4, 1⟩ := by decide +kernel
  obtain ⟨hordered, hfound, hpast⟩ := position_identifies t
  exact ⟨hordered 2 3 (by decide) (by rw [hlength]; decide),
    hordered 3 4 (by decide) (by rw [hlength]; decide),
    (hfound 5 (by rw [hlength]; decide)).2.2,
    (hpast 99 (by rw [hlength]; decide)).trans hend⟩

/-! ### Replacements -/

variable {parser : Parser} {t new : SyntaxTree} {span : Span} {replacement : String}

/-- A replacement keeps the bytes before the span and behind it. -/
theorem exists_parts_of_replace (h : t.replace parser span replacement = .ok new) :
    ∃ front removed back : List UInt8, Text.bytesOf t.text.toList = front ++ removed ++ back ∧
      Text.bytesOf new.text.toList = front ++ Text.bytesOf replacement.toList ++ back ∧
      front.length = span.start ∧ (front ++ removed).length = span.stop := by
  obtain ⟨before, old, after, htext, hstart, hstop, hnew⟩ :=
    Text.splice_eq_ok_iff.mp (splice_of_replace h)
  refine ⟨Text.bytesOf before, Text.bytesOf old, Text.bytesOf after, ?_, ?_, ?_, ?_⟩
  · rw [htext, Text.bytesOf_append, Text.bytesOf_append]
  · rw [hnew, Text.bytesOf_append, Text.bytesOf_append]
  · rw [Text.length_bytesOf, hstart]
  · rw [List.length_append, Text.length_bytesOf, Text.length_bytesOf, hstop]

/-- What a parser is told of a replacement is right. -/
theorem agrees_of_replace (h : t.replace parser span replacement = .ok new) :
    (Change.ofSplice span replacement.toList t.text.toList new.text.toList).Agrees
      (Text.bytesOf t.text.toList) (Text.bytesOf new.text.toList) := by
  obtain ⟨front, removed, back, hold, hnew, hstart, hstop⟩ := exists_parts_of_replace h
  have hordered : span.start ≤ span.stop := by
    rw [List.length_append] at hstop
    omega
  have hsame : Extent.before (Text.bytesOf t.text.toList) span.start =
      .before (Text.bytesOf new.text.toList) span.start := by
    rw [hold, hnew, ← hstart, List.append_assoc, List.append_assoc, Extent.before_append_length,
      Extent.before_append_length]
  constructor
  case start => exact ⟨rfl, hsame⟩
  case oldStop => exact ⟨rfl, Extent.before_eq_add hordered _⟩
  case newStop =>
    refine ⟨rfl, ?_⟩
    simp only [Change.ofSplice, hsame]
    exact Extent.before_eq_add (Nat.le_add_right _ _) _

/-- Before a span that is replaced, all positions stay. -/
theorem position_of_replace_of_le (h : t.replace parser span replacement = .ok new)
    {offset : Nat} (hoffset : offset ≤ span.start) : new.position offset = t.position offset := by
  obtain ⟨front, removed, back, hold, hnew, hstart, -⟩ := exists_parts_of_replace h
  rw [← hstart] at hoffset
  rw [position, position, Text.position, Text.position, hold, hnew, List.append_assoc,
    List.append_assoc, Extent.before_append_of_le hoffset, Extent.before_append_of_le hoffset]

/-- Behind it, they stay as far from its end. -/
theorem position_behind_replace (h : t.replace parser span replacement = .ok new) (n : Nat) :
    let change := Change.ofSplice span replacement.toList t.text.toList new.text.toList
    let rest := Extent.before ((Text.bytesOf t.text.toList).drop span.stop) n
    t.position (change.oldStop + n) = (change.oldStopPoint + rest).toPosition ∧
      new.position (change.newStop + n) = (change.newStopPoint + rest).toPosition := by
  obtain ⟨front, removed, back, hold, hnew, hstart, hstop⟩ := exists_parts_of_replace h
  have hend : span.start + Text.byteLength replacement.toList =
      (front ++ Text.bytesOf replacement.toList).length := by
    rw [List.length_append, Text.length_bytesOf, hstart]
  simp only [Change.ofSplice, position, Text.position, hold, hnew, hend]
  rw [← hstop, List.drop_left' rfl, Extent.before_append, Extent.before_append,
    Extent.before_append_length, Extent.before_append_length]
  exact ⟨rfl, rfl⟩

/-- The bytes that a replacement has put in. -/
theorem added_of_replace (h : t.replace parser span replacement = .ok new) :
    ((Text.bytesOf new.text.toList).take
        (span.start + Text.byteLength replacement.toList)).drop span.start =
      Text.bytesOf replacement.toList := by
  obtain ⟨front, removed, back, -, hnew, hstart, -⟩ := exists_parts_of_replace h
  have hend : (front ++ Text.bytesOf replacement.toList).length =
      span.start + Text.byteLength replacement.toList := by
    rw [List.length_append, Text.length_bytesOf, hstart]
  rw [hnew, List.take_left' hend, List.drop_left' hstart]

/-- Where an offset of a text stands when so many bytes are put in at a place. -/
def shifted (place length offset : Nat) : Nat := if offset < place then offset else offset + length

/-- No byte comes to another line when a text without line feeds is put in. -/
theorem line_of_insertion (h : t.replace parser span replacement = .ok new)
    (hempty : span.start = span.stop) (hline : '\n' ∉ replacement.toList) (offset : Nat) :
    (new.position (shifted span.start (Text.byteLength replacement.toList) offset)).line =
      (t.position offset).line := by
  rw [shifted]
  split
  case isTrue hlt => rw [position_of_replace_of_le h (Nat.le_of_lt hlt)]
  case isFalse hle =>
    obtain ⟨n, rfl⟩ := Nat.exists_eq_add_of_le (Nat.le_of_not_lt hle)
    obtain ⟨hold, hnew⟩ := position_behind_replace h n
    have hadded := (agrees_of_replace h).newStop.2
    have hrows : (Extent.ofBytes (Text.bytesOf replacement.toList)).rows = 0 := by
      apply Extent.rows_ofBytes_eq_zero
      rw [Text.lineFeed_mem_bytesOf_iff]
      exact hline
    simp only [Change.ofSplice, added_of_replace h, ← hempty] at hold hnew hadded
    rw [Nat.add_right_comm, hnew, hold, hadded]
    simp only [Extent.toPosition, Extent.rows_add, hrows, Nat.add_zero]

/-- An extent counts the line feeds before an offset and the bytes behind the last of them, and the
extents of texts that follow one another add up.  So what a parser is told of a replacement agrees
with the two texts.  The positions before the span stay, and a byte behind it, in the old text and
in the new one, is as far behind the end of what was replaced as the bytes between reach.  To put in
a text without line feeds leaves every byte on its line. -/
theorem positions_compose :
    (∀ bytes offset, (Extent.before bytes offset).toPosition = Text.lineAndColumn bytes offset) ∧
    (∀ a b c : List UInt8, Extent.before (a ++ b ++ c) (a.length + b.length) =
      Extent.before a a.length + Extent.before b b.length) ∧
    ∀ (parser : Parser) (t new : SyntaxTree) (span : Span) (replacement : String),
      t.replace parser span replacement = .ok new →
        let old := Text.bytesOf t.text.toList
        let change := Change.ofSplice span replacement.toList t.text.toList new.text.toList
        change.Agrees old (Text.bytesOf new.text.toList) ∧
        (∀ offset ≤ span.start, new.position offset = t.position offset) ∧
        (∀ n, t.position (change.oldStop + n) =
            (change.oldStopPoint + .before (old.drop span.stop) n).toPosition ∧
          new.position (change.newStop + n) =
            (change.newStopPoint + .before (old.drop span.stop) n).toPosition) ∧
        (span.start = span.stop → '\n' ∉ replacement.toList → ∀ offset,
          (new.position (shifted span.start (Text.byteLength replacement.toList) offset)).line =
            (t.position offset).line) := by
  refine ⟨Text.toPosition_before, ?_, ?_⟩
  · intro a b c
    rw [List.append_assoc, Extent.before_append, Extent.before_append_length, Extent.before_length,
      Extent.before_length]
  · intro parser t new span replacement h
    exact ⟨agrees_of_replace h, fun _ hoffset => position_of_replace_of_le h hoffset,
      position_behind_replace h, line_of_insertion h⟩

theorem positions_compose_inserted :
    let parser : Parser := .ofParse fun _ => ⟨default, false⟩
    let t : SyntaxTree := ⟨"é\nb", ⟨default, false⟩⟩
    let new := parser.tree (String.ofList ['é', '\n', 'x', 'y', 'b'])
    let change := Change.ofSplice ⟨3, 3⟩ "xy".toList t.text.toList new.text.toList
    t.replace parser ⟨3, 3⟩ "xy" = .ok new ∧ '\n' ∉ "xy".toList ∧
      change.Agrees (Text.bytesOf t.text.toList) (Text.bytesOf new.text.toList) ∧
      new.position (change.newStop + 0) =
        (change.newStopPoint + .before ((Text.bytesOf t.text.toList).drop 3) 0).toPosition ∧
      (new.position 5).line = (t.position 3).line := by
  intro parser t new change
  have hsplice : Text.splice ⟨3, 3⟩ "xy".toList t.text.toList =
      .ok ['é', '\n', 'x', 'y', 'b'] := by decide +kernel
  have hreplace : t.replace parser ⟨3, 3⟩ "xy" = .ok new := by
    rw [replace, hsplice]
    rfl
  have hline : '\n' ∉ "xy".toList := by decide +kernel
  have hplace : shifted 3 (Text.byteLength "xy".toList) 3 = 5 := by decide +kernel
  obtain ⟨-, -, hall⟩ := positions_compose
  obtain ⟨hagrees, -, hbehind, hinserted⟩ := hall parser t new ⟨3, 3⟩ "xy" hreplace
  refine ⟨hreplace, hline, hagrees, (hbehind 0).2, ?_⟩
  rw [← hplace]
  exact hinserted rfl hline 3

end SyntaxTree

end Syntax

end PubSweep
