/-!
Lines and columns of a text, counted in bytes.
-/

namespace PubSweep

/-- A line and a column, both counted from one. -/
structure Position where
  line : Nat
  column : Nat
deriving Repr, DecidableEq, Inhabited

namespace Position

/-- How a position is shown. -/
def render (p : Position) : String := toString p.line ++ ":" ++ toString p.column

end Position

/-- The extent of a piece of text: its line feeds, and the bytes behind the last of them. -/
structure Extent where
  rows : Nat
  columns : Nat
deriving Repr, DecidableEq, Inhabited

namespace Extent

/-- One extent behind another. -/
def add (a b : Extent) : Extent :=
  if 0 < b.rows then ⟨a.rows + b.rows, b.columns⟩ else ⟨a.rows, a.columns + b.columns⟩

instance : Add Extent := ⟨add⟩

/-- The line feed. -/
def lineFeed : UInt8 := 10

/-- One byte further. -/
def step (e : Extent) (byte : UInt8) : Extent :=
  if byte = lineFeed then ⟨e.rows + 1, 0⟩ else ⟨e.rows, e.columns + 1⟩

/-- The extent of some bytes. -/
def ofBytes (bytes : List UInt8) : Extent := bytes.foldl step ⟨0, 0⟩

/-- The extent of the bytes before an offset; an offset past the end counts as the end. -/
def before (bytes : List UInt8) (offset : Nat) : Extent := ofBytes (bytes.take offset)

/-- The position at the end of an extent. -/
def toPosition (e : Extent) : Position := ⟨e.rows + 1, e.columns + 1⟩

end Extent

end PubSweep
