import Mathlib.Data.List.Basic
import Mathlib.Data.List.Induction
import PubSweep.Proofs.Text.Cut

/-!
Lines and columns as they are counted.

An extent goes over the bytes once.  What it ends with are two counts of their own: the line feeds,
and the bytes behind the last of them (`Extent.ofBytes_eq`).  Extents of two texts add up to that of
the one behind the other (`Extent.ofBytes_append`), and an extent leads back to the number of bytes
by way of the offsets at which lines start (`Text.lineStarts_ofBytes`).
-/

namespace PubSweep

namespace Extent

theorem ofBytes_concat (bytes : List UInt8) (byte : UInt8) :
    ofBytes (bytes ++ [byte]) = (ofBytes bytes).step byte := by
  rw [ofBytes, ofBytes, List.foldl_append, List.foldl_cons, List.foldl_nil]

theorem ofBytes_eq (bytes : List UInt8) :
    ofBytes bytes =
      ⟨bytes.count lineFeed, (bytes.reverse.takeWhile (· != lineFeed)).length⟩ := by
  induction bytes using List.reverseRecOn with
  | nil => rfl
  | append_singleton bytes byte ih =>
      rw [ofBytes_concat, ih, step]
      by_cases hfeed : byte = lineFeed
      · simp [hfeed]
      · simp [hfeed]

theorem rows_ofBytes_eq_zero {bytes : List UInt8} (h : lineFeed ∉ bytes) :
    (ofBytes bytes).rows = 0 := by
  rw [ofBytes_eq]
  exact List.count_eq_zero.mpr h

/-! ### One behind the other -/

theorem add_eq (a b : Extent) : a + b =
    if 0 < b.rows then ⟨a.rows + b.rows, b.columns⟩ else ⟨a.rows, a.columns + b.columns⟩ := rfl

@[simp] theorem rows_add (a b : Extent) : (a + b).rows = a.rows + b.rows := by
  rw [add_eq]
  split
  · rfl
  · simp only
    omega

theorem add_step (a b : Extent) (byte : UInt8) : (a + b).step byte = a + b.step byte := by
  by_cases hfeed : byte = lineFeed
  · simp [step, hfeed, add_eq a ⟨b.rows + 1, 0⟩, Nat.add_assoc]
  · simp only [step, hfeed, if_false, rows_add]
    simp only [add_eq]
    split
    · rfl
    · simp only [Extent.mk.injEq]
      omega

/-- The extent of two texts, one behind the other. -/
theorem ofBytes_append (front back : List UInt8) :
    ofBytes (front ++ back) = ofBytes front + ofBytes back := by
  induction back using List.reverseRecOn with
  | nil =>
      rw [List.append_nil]
      rfl
  | append_singleton back byte ih =>
      rw [← List.append_assoc, ofBytes_concat, ih, add_step, ofBytes_concat]

/-- Up to a later offset, an extent grows by that of the bytes between. -/
theorem before_eq_add {i j : Nat} (h : i ≤ j) (bytes : List UInt8) :
    before bytes j = before bytes i + ofBytes ((bytes.take j).drop i) := by
  have hsplit := List.take_append_drop i (bytes.take j)
  rw [List.take_take, Nat.min_eq_left h] at hsplit
  rw [before, before, ← ofBytes_append, hsplit]

/-- In the first part of a text, extents do not depend on what follows. -/
theorem before_append_of_le {front : List UInt8} {offset : Nat} (h : offset ≤ front.length)
    (back : List UInt8) : before (front ++ back) offset = before front offset := by
  rw [before, before, List.take_append_of_le_length h]

theorem before_length (bytes : List UInt8) : before bytes bytes.length = ofBytes bytes := by
  rw [before, List.take_length]

theorem before_append_length (front back : List UInt8) :
    before (front ++ back) front.length = ofBytes front := by
  rw [before_append_of_le (Nat.le_refl _), before_length]

/-- Behind the first part of a text, extents go on from that of the part. -/
theorem before_append (front back : List UInt8) (offset : Nat) :
    before (front ++ back) (front.length + offset) = ofBytes front + before back offset := by
  rw [before, before, List.take_length_add_append, ofBytes_append]

end Extent

namespace Text

/-- Where an offset stands among bytes: behind so many line feeds, and so many bytes behind the last
of them, both counted from one. -/
def lineAndColumn (bytes : List UInt8) (offset : Nat) : Position :=
  ⟨(bytes.take offset).count Extent.lineFeed + 1,
    ((bytes.take offset).reverse.takeWhile (· != Extent.lineFeed)).length + 1⟩

theorem toPosition_before (bytes : List UInt8) (offset : Nat) :
    (Extent.before bytes offset).toPosition = lineAndColumn bytes offset := by
  rw [Extent.before, Extent.ofBytes_eq, Extent.toPosition, lineAndColumn]

theorem position_eq (cs : List Char) (offset : Nat) :
    position cs offset = lineAndColumn (bytesOf cs) offset :=
  toPosition_before (bytesOf cs) offset

theorem lineFeed_mem_bytesOf_iff {cs : List Char} :
    Extent.lineFeed ∈ bytesOf cs ↔ '\n' ∈ cs := by
  have hchar : ∀ c, Extent.lineFeed ∈ String.utf8EncodeChar c ↔ c = '\n' :=
    fun c => mem_utf8EncodeChar_iff (d := '\n') (by decide)
  simp [bytesOf, hchar]

/-! ### Lines -/

/-- The offsets at which the lines of a text start: the start of the text, and behind every line
feed. -/
def lineStarts (bytes : List UInt8) : List Nat := 0 :: bytes.findIdxs (· == Extent.lineFeed) 1

/-- The lines of the first part of a text start where they start in the whole text. -/
theorem lineStarts_append (front back : List UInt8) :
    lineStarts (front ++ back) =
      lineStarts front ++ back.findIdxs (· == Extent.lineFeed) (1 + front.length) := by
  rw [lineStarts, List.findIdxs_append, lineStarts, List.cons_append]

theorem length_lineStarts (bytes : List UInt8) :
    (lineStarts bytes).length = (Extent.ofBytes bytes).rows + 1 := by
  rw [lineStarts, List.length_cons, List.length_findIdxs, Extent.ofBytes_eq]
  rfl

/-- The end of a text is as far behind the start of the last line as its extent says. -/
theorem lineStarts_ofBytes (bytes : List UInt8) :
    ∃ start, (lineStarts bytes)[(Extent.ofBytes bytes).rows]? = some start ∧
      start + (Extent.ofBytes bytes).columns = bytes.length := by
  induction bytes using List.reverseRecOn with
  | nil => exact ⟨0, rfl, rfl⟩
  | append_singleton bytes byte ih =>
      obtain ⟨start, hstart, hlength⟩ := ih
      rw [lineStarts_append, Extent.ofBytes_concat, Extent.step]
      by_cases hfeed : byte = Extent.lineFeed
      · refine ⟨1 + bytes.length, ?_, ?_⟩
        · simp [hfeed, ← length_lineStarts]
        · simp [hfeed, Nat.add_comm]
      · refine ⟨start, ?_, ?_⟩
        · simp [hfeed, hstart]
        · simp only [hfeed, if_false, List.length_append, List.length_singleton]
          omega

/-- A text of one line is as long as its column. -/
theorem columns_ofBytes_of_rows {bytes : List UInt8} (h : (Extent.ofBytes bytes).rows = 0) :
    (Extent.ofBytes bytes).columns = bytes.length := by
  obtain ⟨start, hstart, hlength⟩ := lineStarts_ofBytes bytes
  rw [h, lineStarts, List.getElem?_cons_zero, Option.some.injEq] at hstart
  omega

end Text

end PubSweep
