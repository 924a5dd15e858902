import PubSweep.Grammar.Productions

/-!
The automaton of all token patterns, and longest-match scanning with a chosen set of tokens.

A position stands for one character of one pattern, for the white space before a token, or for the
end of a token.  A scan keeps the set of positions that may come next.
-/

namespace PubSweep.Grammar

/-- What a position waits for. -/
inductive Expects where
  /-- The token is complete. -/
  | done
  /-- A character of one of the classes. -/
  | char (classes : Array Bool)
  /-- White space before the token. -/
  | space (classes : Array Bool)
deriving Inhabited

/-- One place in a token's pattern. -/
structure Position where
  /-- The symbol of the token. -/
  token : Nat
  expects : Expects
  precedence : Nat
  /-- The positions that may come next. -/
  next : List Nat
deriving Inhabited

namespace Position

/-- Whether a character class moves on from this position. -/
def accepts (p : Position) (c : Nat) : Bool :=
  match p.expects with
  | .done => false
  | .char s => s.getD c false
  | .space s => s.getD c false

/-- Whether this position is white space before a token. -/
def isSpace (p : Position) : Bool :=
  match p.expects with
  | .space _ => true
  | _ => false

/-- Whether this position ends a token. -/
def isDone (p : Position) : Bool :=
  match p.expects with
  | .done => true
  | _ => false

end Position

/-- Inserts into a strictly increasing list. -/
def insertSorted (x : Nat) : List Nat → List Nat
  | [] => [x]
  | y :: rest => if x < y then x :: y :: rest else if x = y then y :: rest else
      y :: insertSorted x rest

/-- Union of strictly increasing lists. -/
def unionSorted (a b : List Nat) : List Nat :=
  a.foldl (fun acc x => insertSorted x acc) b

/-- A set of classes as a table. -/
def CharSet.table (s : CharSet) : Array Bool :=
  Array.ofFn fun c : Fin classCount => s.mem c.val

/-- Lays out a pattern in front of the positions `next`; the result starts with the positions that
open the pattern. -/
def Pattern.layOut (token precedence : Nat) :
    Pattern → List Nat → Array Position → List Nat × Array Position
  | .empty, next, acc => (next, acc)
  | .chars s, next, acc => ([acc.size], acc.push ⟨token, .char s.table, precedence, next⟩)
  | .cat a b, next, acc =>
    let (entry, acc) := b.layOut token precedence next acc
    a.layOut token precedence entry acc
  | .alt a b, next, acc =>
    let (x, acc) := a.layOut token precedence next acc
    let (y, acc) := b.layOut token precedence next acc
    (unionSorted x y, acc)
  | .plus a, next, acc =>
    let (entry, _) := a.layOut token precedence next acc
    a.layOut token precedence (unionSorted entry next) acc

/-- The positions of all tokens, and the positions that open each token. -/
structure TokenAutomaton where
  positions : Array Position
  /-- Indexed by symbol; symbol `0` has none. -/
  starts : Array (List Nat)
  /-- How literal a token is, by symbol: the more literal of two tokens of one text wins. -/
  literalness : Array Nat
deriving Inhabited

namespace TokenAutomaton

/-- Literal texts come before patterns, and tokens that admit no white space before others. -/
def literalnessOf (t : Lexeme) : Nat :=
  (if t.isLiteral then 2 else 0) + (if t.immediate then 1 else 0)

/-- The automaton of a list of tokens, numbered from symbol `1`. -/
def ofTokens (tokens : Array Token) : TokenAutomaton :=
  let spaces := CharSet.space.table
  tokens.foldl
    (fun a t =>
      let lexeme := t.lexeme
      let symbol := a.starts.size
      let done := a.positions.size
      let positions := a.positions.push ⟨symbol, .done, lexeme.precedence, []⟩
      let (entry, positions) :=
        lexeme.pattern.layOut symbol lexeme.precedence [done] positions
      let (entry, positions) :=
        if lexeme.immediate then (entry, positions)
        else
          let blank := positions.size
          let entry := insertSorted blank entry
          (entry, positions.push ⟨symbol, .space spaces, 0, entry⟩)
      { positions
        starts := a.starts.push entry
        literalness := a.literalness.push (literalnessOf lexeme) })
    ⟨#[], #[[]], #[0]⟩

variable (a : TokenAutomaton)

/-- The position of an index. -/
def position (i : Nat) : Position := a.positions.getD i default

/-- The positions that open one of the tokens. -/
def startOf (symbols : List Nat) : List Nat :=
  symbols.foldl (fun acc s => unionSorted (a.starts.getD s []) acc) []

/-- A completed token and its precedence. -/
structure Completion where
  token : Nat
  precedence : Nat

/-- Of two tokens completed by one text: the higher precedence, then the more literal, then the
earlier. -/
def prefers (x y : Completion) : Bool :=
  if x.precedence ≠ y.precedence then y.precedence < x.precedence
  else
    let lx := a.literalness.getD x.token 0
    let ly := a.literalness.getD y.token 0
    if lx ≠ ly then ly < lx else x.token < y.token

/-- The preferred token among those completed at a set of positions. -/
def completion (set : List Nat) : Option Completion :=
  set.foldl
    (fun best i =>
      let p := a.position i
      if p.isDone then
        let c : Completion := ⟨p.token, p.precedence⟩
        match best with
        | none => some c
        | some b => if a.prefers b c then some b else some c
      else best)
    none

/-- Where a class of characters leads from a set of positions. -/
structure Move where
  set : List Nat
  isSpace : Bool
  precedence : Nat

/-- The move on a class of characters, if any position admits it. -/
def move (set : List Nat) (c : Nat) : Option Move :=
  set.foldl
    (fun m i =>
      let p := a.position i
      if p.accepts c then
        match m with
        | none => some ⟨p.next, p.isSpace, p.precedence⟩
        | some m =>
          some ⟨unionSorted p.next m.set, m.isSpace && p.isSpace, max m.precedence p.precedence⟩
      else m)
    none

/-- Whether some position of a set belongs to a token. -/
def mentions (set : List Nat) (token : Nat) : Bool :=
  set.any fun i => (a.position i).token == token

/-- Whether white space may still come before some token of a set. -/
def hasSpace (set : List Nat) : Bool :=
  set.any fun i => (a.position i).isSpace

/-- Whether to go on past a completed token: never at a lower precedence; at the same precedence
not through white space, and not to another token while white space is still admitted. -/
def goesOn (m : Move) (done : Completion) (hasSpace : Bool) : Bool :=
  if m.precedence < done.precedence then false
  else if m.precedence = done.precedence then
    !m.isSpace && (!hasSpace || a.mentions m.set done.token)
  else true

/-- A token found by a scan, from `start` to `stop`. -/
structure Match where
  symbol : Nat
  start : Nat
  stop : Nat
deriving Repr, Inhabited

/-- What a scan found, where the token or the failure starts, and how far it looked. -/
structure Scan where
  found : Option Match
  start : Nat
  reached : Nat
deriving Inhabited

/-- Scans on from a set of positions over the classes of a text.  `blank` says that only white
space was read so far, and `atEnd` that the end of the text is a token. -/
def scanFrom (classes : Array Nat) (atEnd : Bool) :
    (fuel : Nat) → List Nat → (start current : Nat) → (blank : Bool) → Option Match → Scan
  | 0, _, start, current, _, found => ⟨found, start, current⟩
  | fuel + 1, set, start, current, blank, found =>
    let done := a.completion set
    let found :=
      match done with
      | some c => some ⟨c.token, start, current⟩
      | none => found
    match classes[current]? with
    | none =>
      if blank && atEnd && found.isNone then
        ⟨some ⟨Productions.endSymbol, start, current⟩, start, current⟩
      else ⟨found, start, current⟩
    | some c =>
      match a.move set c with
      | none => ⟨found, start, current⟩
      | some m =>
        let blocked :=
          match done with
          | some d => !a.goesOn m d (a.hasSpace set)
          | none => false
        if blocked then ⟨found, start, current⟩
        else if m.isSpace then
          scanFrom classes atEnd fuel m.set (current + 1) (current + 1) blank found
        else scanFrom classes atEnd fuel m.set start (current + 1) false found

/-- The longest match from a place in a text. -/
def scan (set : List Nat) (atEnd : Bool) (classes : Array Nat) (current : Nat) : Scan :=
  a.scanFrom classes atEnd (classes.size - current + 1) set current current true none

end TokenAutomaton

end PubSweep.Grammar
