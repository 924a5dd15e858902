import PubSweep.Text.Span

/-!
Syntax trees as a rule sees them: nodes with a kind, a span and children.
-/

namespace PubSweep.Syntax

/-- What is known of a node without its children. -/
structure NodeInfo where
  kind : String
  /-- A node of a rule of the grammar; keywords and punctuation are not named. -/
  isNamed : Bool
  span : Span
  /-- The text fits no rule. -/
  isError : Bool := false
  /-- The node was guessed. -/
  isMissing : Bool := false
  /-- The field of the parent that the node stands in. -/
  field : Option String := none
deriving Repr, DecidableEq, Inhabited

/-- A node of a syntax tree. -/
inductive Node where
  | mk (info : NodeInfo) (children : List Node)
deriving Repr, Inhabited

namespace Node

/-- What is known of a node without its children. -/
def info : Node → NodeInfo
  | mk i _ => i

/-- The children of a node, in the order of the text. -/
def children : Node → List Node
  | mk _ cs => cs

variable (n : Node)

/-- The kind of a node. -/
def kind : String := n.info.kind

/-- Whether a node is named. -/
def isNamed : Bool := n.info.isNamed

/-- The bytes of a node. -/
def span : Span := n.info.span

/-- Whether a node stands for a fault of the text. -/
def isFault : Bool := n.info.isError || n.info.isMissing

/-- The first child in a field. -/
def childInField (field : String) : Option Node :=
  n.children.find? (·.info.field == some field)

mutual
/-- The number of nodes of a tree. -/
def size : Node → Nat
  | mk _ cs => 1 + sizeAll cs

/-- The number of nodes of some trees. -/
def sizeAll : List Node → Nat
  | [] => 0
  | c :: cs => c.size + sizeAll cs
end

mutual
/-- The nodes on the way to the smallest node around a range, that node first.  `above` are the
nodes above this one.  A child is entered if it reaches past the start of the range, at least to its
end, and does not begin behind its start. -/
def pathTo (range : Span) (above : List Node) : Node → List Node
  | mk i cs => pathToAmong range (mk i cs :: above) cs

/-- Goes into the first of some children that is around a range. -/
def pathToAmong (range : Span) (path : List Node) : List Node → List Node
  | [] => path
  | c :: cs =>
    if c.span.stop < range.stop || c.span.stop ≤ range.start then pathToAmong range path cs
    else if range.start < c.span.start then path
    else pathTo range path c
end

end Node

end PubSweep.Syntax
