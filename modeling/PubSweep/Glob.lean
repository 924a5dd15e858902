/-!
Patterns for paths.

`?` stands for one character, `*` for any number of them, `[…]` for one of a set, and `**`, which
must be a whole component, for any number of components.
-/

namespace PubSweep.Glob

/-- One character, or a range of them. -/
structure CharRange where
  first : Char
  last : Char
deriving Repr, DecidableEq

/-- One part of a pattern. -/
inductive Token where
  | char (c : Char)
  | anyChar
  | anySequence
  | anyComponents
  | within (ranges : List CharRange)
  | except (ranges : List CharRange)
deriving Repr, DecidableEq

/-- A pattern. -/
structure Pattern where
  tokens : List Token
deriving Repr, DecidableEq

/-- The ranges of a set, between its brackets. -/
def rangesOf : List Char → List CharRange
  | a :: '-' :: b :: rest => ⟨a, b⟩ :: rangesOf rest
  | c :: rest => ⟨c, c⟩ :: rangesOf rest
  | [] => []

/-- What stands before the closing bracket of a set, which has at least one character, and what
behind. -/
def untilBracket? : List Char → Option (List Char × List Char)
  | [] => none
  | c :: rest =>
    let more := rest.takeWhile (· ≠ ']')
    match rest.drop more.length with
    | _ :: behind => some (c :: more, behind)
    | [] => none

/-- Reads a set, behind its opening bracket. -/
def set? : List Char → Option (Token × List Char)
  | '!' :: rest => (untilBracket? rest).map fun (s, r) => (.except (rangesOf s), r)
  | cs => (untilBracket? cs).map fun (s, r) => (.within (rangesOf s), r)

/-- Adds the token for any components, unless it is there already. -/
def addComponents (tokens : List Token) : List Token :=
  match tokens with
  | .anyComponents :: _ :: _ => tokens
  | _ => .anyComponents :: tokens

/-- Reads a pattern.  `tokens` are the tokens read so far, the last first, and `previous` is the
character before. -/
def tokens? : (fuel : Nat) → (previous : Option Char) → (tokens : List Token) → List Char →
    Option (List Token)
  | 0, _, _, _ => none
  | _, _, tokens, [] => some tokens.reverse
  | fuel + 1, previous, tokens, c :: rest =>
    match c with
    | '?' => tokens? fuel (some c) (.anyChar :: tokens) rest
    | '*' =>
      let stars := 1 + (rest.takeWhile (· = '*')).length
      let behind := rest.drop (stars - 1)
      if stars = 1 then tokens? fuel (some c) (.anySequence :: tokens) rest
      else if stars = 2 && (previous.isNone || previous = some '/') then
        match behind with
        | [] => tokens? fuel (some c) (addComponents tokens) []
        | '/' :: r => tokens? fuel (some '/') (addComponents tokens) r
        | _ => none
      else none
    | '[' =>
      match set? rest with
      | some (t, r) => tokens? fuel (some ']') (t :: tokens) r
      | none => none
    | _ => tokens? fuel (some c) (.char c :: tokens) rest

/-- Reads a pattern. -/
def parse? (text : String) : Option Pattern :=
  (tokens? (text.length + 1) none [] text.toList).map Pattern.mk

/-- Whether a character lies in one of some ranges. -/
def isWithin (ranges : List CharRange) (c : Char) : Bool :=
  ranges.any fun r => r.first ≤ c && c ≤ r.last

/-- The ends of a text, the whole text first. -/
def suffixes : List Char → List (List Char)
  | [] => [[]]
  | c :: cs => (c :: cs) :: suffixes cs

/-- The ends of a text behind some of its components: behind a slash, or empty. -/
def componentSuffixes : List Char → List (List Char)
  | [] => [[]]
  | c :: cs => if c = '/' then cs :: componentSuffixes cs else componentSuffixes cs

/-- Whether a text is an instance of some tokens. -/
def matchTokens : List Token → List Char → Bool
  | [], cs => cs.isEmpty
  | .anySequence :: ts, cs => (suffixes cs).any (matchTokens ts)
  | .anyComponents :: ts, cs => (cs :: componentSuffixes cs).any (matchTokens ts)
  | .char c :: ts, d :: cs => c = d && matchTokens ts cs
  | .anyChar :: ts, _ :: cs => matchTokens ts cs
  | .within ranges :: ts, d :: cs => isWithin ranges d && matchTokens ts cs
  | .except ranges :: ts, d :: cs => !isWithin ranges d && matchTokens ts cs
  | _ :: _, [] => false

/-- Whether a text is an instance of a pattern. -/
def Pattern.matches (p : Pattern) (text : String) : Bool := matchTokens p.tokens text.toList

end PubSweep.Glob
