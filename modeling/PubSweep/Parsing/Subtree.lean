import PubSweep.Grammar.Table
import PubSweep.Parsing.Source

/-!
Subtrees of an unfinished parse, with the cost of the errors in them.
-/

namespace PubSweep.Parsing

open Grammar

/-- What a subtree stands for. -/
inductive SubtreeKind where
  | symbol (s : Nat)
  /-- Text that fits nowhere. -/
  | error
  /-- Tokens skipped while looking for a place to go on. -/
  | skipped
deriving DecidableEq, Inhabited

/-- What is known of a subtree without looking inside. -/
structure SubtreeInfo where
  kind : SubtreeKind
  /-- Where the white space before the subtree starts. -/
  before : Nat
  start : Nat
  stop : Nat
  /-- A comment, an error or the end of the text: no part of the production around it. -/
  extra : Bool := false
  /-- A token that was guessed. -/
  missing : Bool := false
  /-- A token that spells a keyword. -/
  keyword : Bool := false
  /-- The cost of the errors inside. -/
  innerCost : Nat := 0
  /-- Nodes inside that will be shown. -/
  visibleInside : Nat := 0
  /-- Children that will be shown. -/
  visibleChildren : Nat := 0
  /-- The state of the scanner after the last scanned token inside. -/
  scanner : Option Nat := none
  /-- Some scanned token inside changed the state of the scanner. -/
  scannerChanged : Bool := false
  /-- Labels of the children. -/
  labels : Array (Option Label) := #[]
  /-- Fields of the children. -/
  fields : Array (Option String) := #[]
deriving Inhabited

/-- A token, or a node over subtrees. -/
inductive Subtree where
  | mk (info : SubtreeInfo) (children : List Subtree)
deriving Inhabited

namespace Subtree

/-- What is known of a subtree without looking inside. -/
def info : Subtree → SubtreeInfo
  | .mk i _ => i

/-- The parts of a subtree. -/
def children : Subtree → List Subtree
  | .mk _ cs => cs

variable (t : Subtree)

/-- What a subtree stands for. -/
def kind : SubtreeKind := t.info.kind

/-- Whether a subtree is an error. -/
def isError : Bool := t.kind == .error

/-- Whether a subtree is the end of the text. -/
def isEnd : Bool := t.kind == .symbol Productions.endSymbol

/-- The same subtree, part of its production or not. -/
def withExtra (extra : Bool) : Subtree := .mk { t.info with extra } t.children

/-- The same subtree under another symbol. -/
def withSymbol (s : Nat) : Subtree := .mk { t.info with kind := .symbol s } t.children

/-- The cost of a token that was guessed, of an error, of one skipped subtree, and of one skipped
row. -/
def guessCost : Nat := 610

@[inherit_doc guessCost]
def errorCost : Nat := 500

@[inherit_doc guessCost]
def skipCost : Nat := 100

@[inherit_doc guessCost]
def rowCost : Nat := 30

/-- The cost of the errors in a subtree. -/
def cost : Nat := if t.info.missing then guessCost else t.info.innerCost

/-- Whether a node will be shown for the subtree. -/
def isVisible (table : Table) : Bool :=
  match t.kind with
  | .symbol s => (table.symbols.getD s default).visible
  | .error => true
  | .skipped => false

/-- How many nodes a subtree counts for when progress is measured. -/
def weight (table : Table) : Nat :=
  t.info.visibleInside + (if t.isVisible table then 1 else 0) +
    (if t.kind == .skipped then 1 else 0)

/-- A single token. -/
def leaf (kind : SubtreeKind) (before start stop : Nat) : Subtree :=
  .mk { kind, before, start, stop, extra := kind == .symbol Productions.endSymbol } []

/-- What a child adds to the node around it; `place` is its place among the children that are no
extras. -/
def addChild (table : Table) (isError : Bool) (labels : Array (Option Label))
    (acc : SubtreeInfo × Nat) (c : Subtree) : SubtreeInfo × Nat :=
  let (i, place) := acc
  let isLeaf := c.children.isEmpty
  let ownCost := if c.kind == .skipped then 0 else c.cost
  let skipped :=
    if isError && !c.info.extra && !(c.isError && isLeaf) then
      if c.isVisible table then skipCost else skipCost * c.info.visibleChildren
    else 0
  let labelled := !c.info.extra && !c.isEnd && (labels.getD place none).isSome
  let (inside, children) :=
    if labelled || c.isVisible table then (c.info.visibleInside + 1, 1)
    else (c.info.visibleInside, c.info.visibleChildren)
  ({ i with
      stop := c.info.stop
      innerCost := i.innerCost + ownCost + skipped
      visibleInside := i.visibleInside + inside
      visibleChildren := i.visibleChildren + children
      scanner := c.info.scanner.or i.scanner
      scannerChanged := i.scannerChanged || c.info.scannerChanged },
    if c.info.extra then place else place + 1)

/-- A node over subtrees; a node without any stands at `position`. -/
def node (table : Table) (source : Source) (kind : SubtreeKind) (labels : Array (Option Label))
    (fields : Array (Option String)) (position : Nat) (children : List Subtree) : Subtree :=
  let isError := kind == .error || kind == .skipped
  let first : SubtreeInfo :=
    match children with
    | [] => { kind, before := position, start := position, stop := position }
    | c :: _ => { kind, before := c.info.before, start := c.info.start, stop := c.info.stop }
  let (i, _) := children.foldl (addChild table isError labels) ({ first with labels, fields }, 0)
  let own :=
    if isError then
      errorCost + source.bytes i.start i.stop + rowCost * source.lines i.start i.stop
    else 0
  .mk { i with innerCost := i.innerCost + own } children

/-- The order of symbols: identifiers first, errors last. -/
def rank (table : Table) : SubtreeKind → Nat
  | .symbol s => if s = table.grammar.word then 1 else s + 2
  | .skipped => 1000000
  | .error => 1000001

mutual
/-- Compares two subtrees by symbol, then by the number of their parts, then part by part. -/
def compare (table : Table) : Subtree → Subtree → Ordering
  | .mk i cs, .mk j ds =>
    (Ord.compare (rank table i.kind) (rank table j.kind)).then
      ((Ord.compare cs.length ds.length).then (compareAll table cs ds))

/-- Compares two lists of subtrees one by one. -/
def compareAll (table : Table) : List Subtree → List Subtree → Ordering
  | c :: cs, d :: ds => (compare table c d).then (compareAll table cs ds)
  | _, _ => .eq
end

/-- Whether the second of two subtrees for the same text is to be taken. -/
def isWorse (table : Table) (left right : Subtree) : Bool :=
  if right.cost < left.cost then true
  else if left.cost < right.cost then false
  else if 0 < left.cost then true
  else compare table left right == .gt

/-- Splits off the extras at the end of a list of subtrees. -/
def splitExtras (trees : List Subtree) : List Subtree × List Subtree :=
  let extras := (trees.reverse.takeWhile (·.info.extra)).reverse
  (trees.take (trees.length - extras.length), extras)

end Subtree

end PubSweep.Parsing
