import PubSweep.Unicode.Identifier

/-!
Character classes and the token patterns built from them.

Every ASCII character is a class of its own; all other characters fall into three classes, by
whether they may open an identifier, may only continue one, or neither.  No token of the grammar
tells two characters of one class apart, so a lexer may work on classes alone.
-/

namespace PubSweep.Grammar

/-- The number of character classes. -/
def classCount : Nat := 131

/-- Class of the non-ASCII characters that may open an identifier. -/
def classStart : Nat := 128

/-- Class of the non-ASCII characters that may only continue an identifier. -/
def classContinue : Nat := 129

/-- Class of all remaining non-ASCII characters. -/
def classOther : Nat := 130

/-- The class of a character. -/
def classOf (c : Char) : Nat :=
  if c.toNat < 128 then c.toNat
  else if Unicode.opensIdentifier c then classStart
  else if Unicode.inRanges Unicode.continueRanges c.toNat then classContinue
  else classOther

/-- A set of character classes. -/
structure CharSet where
  mem : Nat → Bool

namespace CharSet

/-- The classes of the characters of a text. -/
def ofString (s : String) : CharSet :=
  let codes := s.toList.map classOf
  ⟨fun c => codes.contains c⟩

/-- The ASCII characters from `lo` to `hi`. -/
def range (lo hi : Char) : CharSet :=
  ⟨fun c => lo.toNat ≤ c && c ≤ hi.toNat⟩

/-- Every class that is in one of two sets. -/
def union (a b : CharSet) : CharSet :=
  ⟨fun c => a.mem c || b.mem c⟩

/-- Every class outside a set. -/
def compl (a : CharSet) : CharSet :=
  ⟨fun c => !a.mem c⟩

instance : Append CharSet := ⟨union⟩

/-- White space between tokens: the ASCII controls from tab to carriage return, and the blank. -/
def space : CharSet := range '\t' '\r' ++ ofString " "

/-- Every character but the line feed. -/
def notNewline : CharSet := compl (ofString "\n")

/-- Decimal digits. -/
def digit : CharSet := range '0' '9'

/-- Hexadecimal digits. -/
def hexDigit : CharSet := range '0' '9' ++ range 'a' 'f' ++ range 'A' 'F'

/-- ASCII letters and the underscore. -/
def letter : CharSet := range 'a' 'z' ++ range 'A' 'Z' ++ ofString "_"

/-- Characters that may open an identifier, the underscore among them. -/
def identifierStart : CharSet := letter ++ ⟨fun c => c == classStart⟩

/-- Characters that may continue an identifier. -/
def identifierContinue : CharSet :=
  identifierStart ++ digit ++ ⟨fun c => c == classContinue⟩

end CharSet

/-- A pattern over character classes. -/
inductive Pattern where
  /-- The empty text. -/
  | empty
  /-- One character of a set. -/
  | chars (set : CharSet)
  /-- One pattern after another. -/
  | cat (a b : Pattern)
  /-- Either of two patterns. -/
  | alt (a b : Pattern)
  /-- One or more copies of a pattern. -/
  | plus (a : Pattern)

namespace Pattern

instance : Inhabited Pattern := ⟨.empty⟩

/-- Exactly the characters of a text, in order. -/
def literal (s : String) : Pattern :=
  s.toList.foldr (fun c rest => cat (chars (CharSet.ofString c.toString)) rest) empty

/-- All patterns of a list, in order. -/
def seq (ps : List Pattern) : Pattern :=
  ps.foldr cat empty

/-- One of a nonempty list of patterns. -/
def oneOf : List Pattern → Pattern
  | [] => empty
  | [p] => p
  | p :: rest => alt p (oneOf rest)

/-- A pattern or nothing. -/
def opt (p : Pattern) : Pattern := alt p empty

/-- Any number of copies of a pattern. -/
def star (p : Pattern) : Pattern := alt (plus p) empty

/-- Exactly `n` copies of a pattern. -/
def times : Nat → Pattern → Pattern
  | 0, _ => empty
  | n + 1, p => cat p (times n p)

end Pattern

end PubSweep.Grammar
