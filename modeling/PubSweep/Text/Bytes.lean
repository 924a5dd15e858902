import PubSweep.Text.Span
import PubSweep.Text.Position

/-!
Texts by byte offset.

A text is cut only between characters: `cut?` fails at an offset inside a character or past the end.
-/

namespace PubSweep.Text

/-- The bytes of a list of characters. -/
def bytesOf (cs : List Char) : List UInt8 := cs.flatMap String.utf8EncodeChar

/-- The number of bytes of a list of characters. -/
def byteLength : List Char → Nat
  | [] => 0
  | c :: cs => c.utf8Size + byteLength cs

/-- The characters before and behind a byte offset. -/
def cut? : (offset : Nat) → List Char → Option (List Char × List Char)
  | 0, cs => some ([], cs)
  | _ + 1, [] => none
  | offset + 1, c :: cs =>
    if c.utf8Size ≤ offset + 1 then
      (cut? (offset + 1 - c.utf8Size) cs).map fun (before, after) => (c :: before, after)
    else none

/-- Whether an offset lies between two characters or at an end. -/
def isBoundary (offset : Nat) (cs : List Char) : Bool := (cut? offset cs).isSome

/-- The characters between two offsets. -/
def slice? (span : Span) (cs : List Char) : Option (List Char) := do
  let (_, rest) ← cut? span.start cs
  let (middle, _) ← cut? (span.stop - span.start) rest
  return middle

/-- Why a span does not fit a text. -/
inductive SpanError where
  /-- The ends are in the wrong order, or the text is shorter. -/
  | outOfBounds (span : Span) (length : Nat)
  /-- An end lies inside a character. -/
  | notBoundary (span : Span)
deriving Repr, DecidableEq

/-- The words for an error. -/
def SpanError.message : SpanError → String
  | .outOfBounds span length =>
    "span " ++ span.render ++ " is out of bounds for text of length " ++ toString length
  | .notBoundary span => "span " ++ span.render ++ " does not fall on a char boundary"

/-- The text with a span replaced. -/
def splice (span : Span) (replacement : List Char) (cs : List Char) :
    Except SpanError (List Char) :=
  if span.stop < span.start || byteLength cs < span.stop then
    .error (.outOfBounds span (byteLength cs))
  else
    match cut? span.start cs, cut? span.stop cs with
    | some (before, _), some (_, after) => .ok (before ++ replacement ++ after)
    | _, _ => .error (.notBoundary span)

/-- The position of a byte offset. -/
def position (cs : List Char) (offset : Nat) : Position :=
  (Extent.before (bytesOf cs) offset).toPosition

end PubSweep.Text
