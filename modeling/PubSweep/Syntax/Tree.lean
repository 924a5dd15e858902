import PubSweep.Syntax.Cursor
import PubSweep.Text.Bytes

/-!
A text together with its syntax tree.

How a text is parsed is left open.  A `Parser` makes trees of texts, and of a text that has come from
another by a change it makes the same tree when it starts from the old one (`Parser.reparse_eq`).
-/

namespace PubSweep.Syntax

/-- The tree of a text, and whether the text has faults. -/
structure Parsed where
  root : Node
  hasErrors : Bool
deriving Repr, Inhabited

/-- A text and its syntax tree. -/
structure SyntaxTree where
  text : String
  parsed : Parsed
deriving Repr, Inhabited

/-- What a parser that knows the tree of a text is told of a change: the bytes from `start` to
`oldStop` have become those from `start` to `newStop`.  Each place is given by its offset and by the
extent of the text before it. -/
structure Change where
  start : Nat
  oldStop : Nat
  newStop : Nat
  startPoint : Extent
  oldStopPoint : Extent
  newStopPoint : Extent
deriving Repr, DecidableEq, Inhabited

/-- The change of an old text into a new one, in which a span is replaced. -/
def Change.ofSplice (span : Span) (replacement old new : List Char) : Change where
  start := span.start
  oldStop := span.stop
  newStop := span.start + Text.byteLength replacement
  startPoint := .before (Text.bytesOf old) span.start
  oldStopPoint := .before (Text.bytesOf old) span.stop
  newStopPoint := .before (Text.bytesOf new) (span.start + Text.byteLength replacement)

/-- Whether a change is what has become of an old text: the bytes before it and behind it are still
the same, and its places are given rightly. -/
structure Change.Describes (c : Change) (old new : List UInt8) : Prop where
  front : new.take c.start = old.take c.start
  back : new.drop c.newStop = old.drop c.oldStop
  oldOrdered : c.start ≤ c.oldStop ∧ c.oldStop ≤ old.length
  newOrdered : c.start ≤ c.newStop ∧ c.newStop ≤ new.length
  startPoint : c.startPoint = .before old c.start
  oldStopPoint : c.oldStopPoint = .before old c.oldStop
  newStopPoint : c.newStopPoint = .before new c.newStop

/-- A way to parse texts. -/
structure Parser where
  parse : String → Parsed
  /-- Parses a text that has come from that of a tree by a change. -/
  reparse : SyntaxTree → Change → String → Parsed
  /-- To use parts of the old tree again saves time, and gives the tree of the new text. -/
  reparse_eq : ∀ (old : SyntaxTree) (change : Change) (text : String),
    old.parsed = parse old.text →
      change.Describes (Text.bytesOf old.text.toList) (Text.bytesOf text.toList) →
        reparse old change text = parse text

namespace Parser

/-- The parser that has no use for old trees. -/
def ofParse (parse : String → Parsed) : Parser where
  parse := parse
  reparse _ _ text := parse text
  reparse_eq _ _ _ _ _ := rfl

instance : Inhabited Parser := ⟨ofParse default⟩

/-- The syntax tree of a text. -/
def tree (parser : Parser) (text : String) : SyntaxTree := ⟨text, parser.parse text⟩

end Parser

namespace SyntaxTree

variable (t : SyntaxTree)

/-- The node of the whole text. -/
def root : Node := t.parsed.root

/-- Whether the text has faults. -/
def hasErrors : Bool := t.parsed.hasErrors

/-- The number of bytes of the text. -/
def length : Nat := Text.byteLength t.text.toList

/-- All places of the tree in the order of the text. -/
def walk : List Cursor := t.root.walk

/-- The position of a byte offset. -/
def position (offset : Nat) : Position := Text.position t.text.toList offset

/-- The position of the first fault. -/
def firstError : Option Position :=
  if t.hasErrors then
    (t.walk.find? (·.node.isFault)).map fun c => t.position c.node.span.start
  else none

/-- The text of a node. -/
def nodeText (n : Node) : String :=
  String.ofList ((Text.slice? n.span t.text.toList).getD [])

/-- Offsets are compared with nodes as numbers of 32 bits. -/
def offsetModulus : Nat := 0x100000000

/-- The smallest node around a span and the nodes above it, the nearest first; nothing for a span
that ends behind the text. -/
def covering (span : Span) : List Node :=
  if t.length < span.stop then []
  else t.root.pathTo ⟨span.start % offsetModulus, span.stop % offsetModulus⟩ []

/-- The tree of the text with a span replaced. -/
def replace (parser : Parser) (span : Span) (replacement : String) :
    Except Text.SpanError SyntaxTree :=
  match Text.splice span replacement.toList t.text.toList with
  | .ok cs =>
    let change := Change.ofSplice span replacement.toList t.text.toList cs
    .ok ⟨String.ofList cs, parser.reparse t change (String.ofList cs)⟩
  | .error e => .error e

/-- The words for a tree in a log. -/
def describe : String :=
  "SyntaxTree \x7b len: " ++ toString t.length ++ ", has_errors: " ++
    (if t.hasErrors then "true" else "false") ++ " \x7d"

end SyntaxTree

end PubSweep.Syntax
