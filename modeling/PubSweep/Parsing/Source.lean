import PubSweep.Grammar.Pattern

/-!
A text laid out for parsing: its characters, their classes, byte offsets and rows.
-/

namespace PubSweep.Parsing

/-- A text by character index.  `offsets` and `rows` have one entry more than the text has
characters: the last one belongs to the end. -/
structure Source where
  chars : Array Char
  classes : Array Nat
  offsets : Array Nat
  rows : Array Nat
deriving Inhabited

namespace Source

/-- Lays out a text. -/
def ofString (text : String) : Source :=
  let chars := text.toList.toArray
  let (offsets, rows, bytes, row) := chars.foldl
    (fun ((offsets, rows, bytes, row) : Array Nat × Array Nat × Nat × Nat) c =>
      (offsets.push bytes, rows.push row, bytes + c.utf8Size, if c == '\n' then row + 1 else row))
    (#[], #[], 0, 0)
  { chars
    classes := chars.map Grammar.classOf
    offsets := offsets.push bytes
    rows := rows.push row }

variable (s : Source)

/-- The number of characters. -/
def size : Nat := s.chars.size

/-- The byte offset of a character. -/
def offset (i : Nat) : Nat := s.offsets.getD i 0

/-- The row of a character. -/
def row (i : Nat) : Nat := s.rows.getD i 0

/-- The bytes between two characters. -/
def bytes (i j : Nat) : Nat := s.offset j - s.offset i

/-- The rows between two characters. -/
def lines (i j : Nat) : Nat := s.row j - s.row i

/-- The text between two characters. -/
def slice (i j : Nat) : String := String.ofList (s.chars.extract i j).toList

/-- Where reading starts: a byte order mark at the very start of a text is passed over. -/
def readFrom (i : Nat) : Nat :=
  if i = 0 && s.chars[0]? == some (Char.ofNat 0xFEFF) then 1 else i

end Source

end PubSweep.Parsing
