/-!
Half-open byte ranges of a text.
-/

namespace PubSweep

/-- The bytes from `start` up to `stop`; where both are equal, the place between two bytes.  The
ends may be given in the wrong order: such a span fits no text. -/
structure Span where
  start : Nat
  stop : Nat
deriving Repr, DecidableEq, Inhabited

namespace Span

/-- The place at an offset. -/
def empty (offset : Nat) : Span := ⟨offset, offset⟩

variable (a b : Span)

/-- The number of bytes; none where the ends are in the wrong order. -/
def length : Nat := a.stop - a.start

/-- Whether the two ends are the same. -/
def isEmpty : Bool := a.start == a.stop

/-- Whether two spans share a byte or start at the same place.  Two insertions at one place have no
order, so they overlap. -/
def overlaps : Bool :=
  a.start == b.start || (decide (a.start < b.stop) && decide (b.start < a.stop))

/-- Whether the first span includes both ends of the second. -/
def contains : Bool := decide (a.start ≤ b.start) && decide (b.stop ≤ a.stop)

/-- Spans are ordered by their start, then by their end. -/
def compare : Ordering :=
  (Ord.compare a.start b.start).then (Ord.compare a.stop b.stop)

/-- How a span is shown. -/
def render : String := toString a.start ++ ".." ++ toString a.stop

theorem overlaps_iff :
    a.overlaps b = true ↔ a.start = b.start ∨ (a.start < b.stop ∧ b.start < a.stop) := by
  simp [overlaps]

theorem overlaps_comm : a.overlaps b = b.overlaps a := by
  rw [Bool.eq_iff_iff, overlaps_iff, overlaps_iff]
  omega

end Span

end PubSweep
