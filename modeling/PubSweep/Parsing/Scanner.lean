import PubSweep.Parsing.Source

/-!
Tokens that no pattern describes: the inside of strings, raw strings with any number of marks,
numbers with a fraction, and comments that nest.

The scanner carries one number between its tokens: how many `#` marks opened the current raw
string.
-/

namespace PubSweep.Parsing

/-- The tokens of the scanner, in the order of the grammar's list. -/
inductive ScannedToken where
  | stringContent
  | rawOpen
  | rawContent
  | rawClose
  | float
  | outerBlockMark
  | innerBlockMark
  | blockContent
  | lineDoc
  | sentinel
deriving Repr, DecidableEq, Inhabited

/-- The place of a token in the grammar's list. -/
def ScannedToken.index : ScannedToken → Nat
  | .stringContent => 0
  | .rawOpen => 1
  | .rawContent => 2
  | .rawClose => 3
  | .float => 4
  | .outerBlockMark => 5
  | .innerBlockMark => 6
  | .blockContent => 7
  | .lineDoc => 8
  | .sentinel => 9

/-- A scanned token with its place in the text and the marks to remember. -/
structure Scanned where
  token : ScannedToken
  start : Nat
  stop : Nat
  marks : Nat
deriving Repr, Inhabited

namespace Scanner

/-- The first place from `i` on whose character fails a test. -/
def skipWhile (chars : Array Char) (p : Char → Bool) : (fuel i : Nat) → Nat
  | 0, i => i
  | fuel + 1, i =>
    match chars[i]? with
    | some c => if p c then skipWhile chars p fuel (i + 1) else i
    | none => i

/-- The first place from `i` on whose character fails a test. -/
def passWhile (s : Source) (p : Char → Bool) (i : Nat) : Nat :=
  skipWhile s.chars p (s.size - i) i

/-- Whether the character at `i` passes a test. -/
def holds (s : Source) (p : Char → Bool) (i : Nat) : Bool :=
  (s.chars[i]?).any p

/-- The inside of a string up to a quote or an escape; an open string has none. -/
def stringContent (s : Source) (i : Nat) : Option Nat :=
  let j := passWhile s (fun c => c != '"' && c != '\\') i
  if j < s.size && i < j then some j else none

/-- The opening of a raw string: where it ends and how many marks it has. -/
def rawOpen (s : Source) (i : Nat) : Option (Nat × Nat) :=
  let j := if holds s (fun c => c == 'b' || c == 'c') i then i + 1 else i
  if holds s (· == 'r') j then
    let k := passWhile s (· == '#') (j + 1)
    if holds s (· == '"') k then some (k + 1, (k - (j + 1)) % 256) else none
  else none

/-- The inside of a raw string, up to a quote that has enough marks after it. -/
def rawContent (s : Source) (marks : Nat) : (fuel i : Nat) → Option Nat
  | 0, _ => none
  | fuel + 1, i =>
    match s.chars[i]? with
    | none => none
    | some c =>
      if c == '"' then
        let closing := min marks (passWhile s (· == '#') (i + 1) - (i + 1))
        if closing = marks then some i else rawContent s marks fuel (i + 1 + closing)
      else rawContent s marks fuel (i + 1)

/-- Whether a character may stand between the digits of a number. -/
def isNumberChar (c : Char) : Bool := c == '_' || c.isDigit

/-- A number with a fraction or an exponent, up to its type. -/
def float (s : Source) (i : Nat) : Option Nat :=
  let whole := passWhile s isNumberChar (i + 1)
  let hasFraction := holds s (· == '.') whole
  if hasFraction && holds s (fun c => c.isAlpha || c == '.') (whole + 1) then none
  else
    let mantissa := if hasFraction then passWhile s isNumberChar (whole + 1) else whole
    let hasExponent := holds s (fun c => c == 'e' || c == 'E') mantissa
    if !hasFraction && !hasExponent then none
    else
      let sign :=
        if holds s (fun c => c == '+' || c == '-') (mantissa + 1) then mantissa + 2
        else mantissa + 1
      if hasExponent && !holds s isNumberChar sign then some mantissa
      else
        let digits := if hasExponent then passWhile s isNumberChar sign else mantissa
        if holds s (fun c => c == 'u' || c == 'i' || c == 'f') digits &&
            holds s Char.isDigit (digits + 1) then
          some (passWhile s Char.isDigit (digits + 1))
        else some digits

/-- Documentation to the end of its line, the line feed included. -/
def lineDoc (s : Source) (i : Nat) : Nat :=
  let j := passWhile s (· != '\n') i
  if j < s.size then j + 1 else j

/-- What the last character of a comment may start. -/
inductive CommentState where
  | afterSlash
  | afterStar
  | plain
deriving DecidableEq

/-- The inside of a block comment from `i` on: where it ends.  `mark` is the end if the comment
closes here, and `depth` counts the comments that are open. -/
def blockContentFrom (s : Source) :
    (fuel i mark depth : Nat) → CommentState → Nat × Nat
  | 0, i, mark, _, _ => (i, mark)
  | fuel + 1, i, mark, depth, state =>
    if depth = 0 then (i, mark)
    else
      match s.chars[i]? with
      | none => (i, mark)
      | some c =>
        -- only the low byte of a character is looked at
        let c := Char.ofNat (c.toNat % 256)
        let (mark, depth, state) :=
          match state with
          | .afterSlash => (mark, if c == '*' then depth + 1 else depth, CommentState.plain)
          | .afterStar =>
            if c == '*' then (i, depth, .afterStar)
            else (mark, if c == '/' then depth - 1 else depth, .plain)
          | .plain =>
            (i, depth, if c == '/' then .afterSlash else if c == '*' then .afterStar else .plain)
        let mark := if c == '/' && depth ≠ 0 then i + 1 else mark
        blockContentFrom s fuel (i + 1) mark depth state

/-- The inside of a block comment whose first character, at `i`, is already read. -/
def blockContent (s : Source) (i mark : Nat) : Option Nat :=
  let first := s.chars[i]?
  let state : CommentState :=
    if first == some '*' then .afterStar
    else if first == some '/' then .afterSlash
    else .plain
  if first == some '*' && holds s (· == '/') (i + 1) then none
  else
    let next := min (i + 1) s.size
    let (_, stop) := blockContentFrom s (s.size - next + 1) next mark 1 state
    some stop

/-- The marks of documentation and the inside of block comments. -/
def block (s : Source) (valid : ScannedToken → Bool) (i : Nat) : Option (ScannedToken × Nat) :=
  let first := s.chars[i]?
  let next := min (i + 1) s.size
  if valid .innerBlockMark && first == some '!' then some (.innerBlockMark, next)
  else
    let starred := valid .outerBlockMark && first == some '*'
    if starred && holds s (· == '/') next then none
    else if starred && !holds s (· == '*') next then some (.outerBlockMark, next)
    else if valid .blockContent then
      -- without a mark of its own the token ends where reading stopped
      let noMark := s.size + 1
      let stop := blockContent s i (if starred then next else noMark)
      stop.map fun stop => (.blockContent, if stop = noMark then s.size else stop)
    else none

/-- Whether a character is white space between tokens. -/
def isSpace (c : Char) : Bool := ('\t' ≤ c && c ≤ '\r') || c == ' '

/-- The scanned token at a place in the text, if there is one of the valid tokens. -/
def scan (s : Source) (valid : ScannedToken → Bool) (marks : Nat) (i : Nat) : Option Scanned :=
  let i := s.readFrom i
  if valid .sentinel then none
  else if valid .blockContent || valid .innerBlockMark || valid .outerBlockMark then
    (block s valid i).map fun (token, stop) => ⟨token, i, stop, marks⟩
  else if valid .stringContent && !valid .float then
    (stringContent s i).map fun stop => ⟨.stringContent, i, stop, marks⟩
  else if valid .lineDoc then some ⟨.lineDoc, i, lineDoc s i, marks⟩
  else
    let i := passWhile s isSpace i
    if valid .rawOpen && holds s (fun c => c == 'r' || c == 'b' || c == 'c') i then
      (rawOpen s i).map fun (stop, marks) => ⟨.rawOpen, i, stop, marks⟩
    else if valid .rawContent then
      (rawContent s marks (s.size - i + 1) i).map fun stop => ⟨.rawContent, i, stop, marks⟩
    else if valid .rawClose && holds s (· == '"') i then
      some ⟨.rawClose, i, min (i + 1 + marks) s.size, marks⟩
    else if valid .float && holds s Char.isDigit i then
      (float s i).map fun stop => ⟨.float, i, stop, marks⟩
    else none

end Scanner

end PubSweep.Parsing
