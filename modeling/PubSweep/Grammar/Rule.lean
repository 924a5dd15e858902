import PubSweep.Grammar.Pattern

/-!
Grammars as data: named rules over tokens, with precedence, field names and renamed nodes.
-/

namespace PubSweep.Grammar

/-- How operators of one precedence group. -/
inductive Grouping where
  | left
  | right
deriving Repr, DecidableEq, Hashable, Inhabited

/-- A token given by a pattern.  An immediate token admits no white space before it; a token of
higher precedence is preferred to a longer one. -/
structure Lexeme where
  name : String
  pattern : Pattern
  isLiteral : Bool
  immediate : Bool
  precedence : Nat

namespace Lexeme

instance : Inhabited Lexeme := ⟨⟨"", .empty, false, false, 0⟩⟩

/-- The token that is exactly a text. -/
def ofText (s : String) : Lexeme :=
  ⟨s, .literal s, true, false, 0⟩

/-- The token that a pattern describes. -/
def ofPattern (name : String) (p : Pattern) : Lexeme :=
  ⟨name, p, false, false, 0⟩

/-- The same token, directly after the token before it. -/
def tight (t : Lexeme) : Lexeme :=
  { t with immediate := true }

/-- The same token at another precedence. -/
def withPrecedence (t : Lexeme) (precedence : Nat) : Lexeme :=
  { t with precedence }

/-- Two tokens of one grammar are the same when name and flags agree. -/
def same (a b : Lexeme) : Bool :=
  a.name == b.name && a.isLiteral == b.isLiteral && a.immediate == b.immediate &&
    a.precedence == b.precedence

end Lexeme

/-- The name under which a node is shown in place of its own. -/
structure Label where
  name : String
  named : Bool
deriving Repr, DecidableEq, Hashable, Inhabited

/-- The right-hand side of a grammar rule. -/
inductive Rule where
  | blank
  | ref (name : String)
  | token (t : Lexeme)
  | seq (a b : Rule)
  | choice (a b : Rule)
  | many1 (a : Rule)
  | ranked (precedence : Int) (grouping : Option Grouping) (a : Rule)
  | field (name : String) (a : Rule)
  | shown (label : Label) (a : Rule)

namespace Rule

instance : Inhabited Rule := ⟨.blank⟩
instance : Coe String Rule := ⟨.ref⟩

/-- A literal token. -/
def lit (s : String) : Rule := .token (.ofText s)

/-- All parts in order. -/
def all : List Rule → Rule
  | [] => .blank
  | [r] => r
  | r :: rest => .seq r (all rest)

/-- One of several parts. -/
def one : List Rule → Rule
  | [] => .blank
  | [r] => r
  | r :: rest => .choice r (one rest)

/-- One of several literal tokens. -/
def lits (ss : List String) : Rule := one (ss.map lit)

/-- A part or nothing. -/
def opt (r : Rule) : Rule := .choice r .blank

/-- Any number of copies of a part. -/
def many (r : Rule) : Rule := opt (.many1 r)

/-- One or more parts with a separator between them. -/
def sepBy1 (sep : String) (r : Rule) : Rule := .seq r (many (.seq (lit sep) r))

/-- Any number of parts with a separator between them. -/
def sepBy (sep : String) (r : Rule) : Rule := opt (sepBy1 sep r)

/-- A part at a precedence. -/
def rank (p : Int) (r : Rule) : Rule := .ranked p none r

/-- A left-grouping part at a precedence. -/
def rankLeft (p : Int) (r : Rule) : Rule := .ranked p (some .left) r

/-- A right-grouping part at a precedence. -/
def rankRight (p : Int) (r : Rule) : Rule := .ranked p (some .right) r

/-- A part shown as a named node of another kind. -/
def showAs (name : String) (r : Rule) : Rule := .shown ⟨name, true⟩ r

end Rule

/-- A grammar: rules in order, the first of them for whole texts. -/
structure RuleSet where
  /-- The rules in order of their names' first appearance. -/
  rules : List (String × Rule)
  /-- The rule of identifiers; a literal token that spells an identifier is a keyword. -/
  word : String
  /-- Rules for comments, which may stand between any two tokens. -/
  comments : List String
  /-- Tokens that a hand-written scanner recognises. -/
  scanned : List String
  /-- Rules that stand for a family of nodes and leave no node of their own. -/
  families : List String
  /-- Rules that are replaced by their alternatives wherever they are used. -/
  inlined : List String

end PubSweep.Grammar
