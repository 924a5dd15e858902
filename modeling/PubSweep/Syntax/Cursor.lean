import PubSweep.Syntax.Node

/-!
A cursor in a tree, and the walk over all nodes that it drives.

A cursor never leaves the node it started from.  `Preorder.next` gives the node under the cursor and
moves on: to the first child, else to the next sibling of the node or of the nearest node above that
has one.
-/

namespace PubSweep.Syntax

/-- One level above a cursor: the node there, and its children behind the one gone into. -/
structure Frame where
  parent : Node
  later : List Node
deriving Repr, Inhabited

/-- A place in a tree: a node and the levels above it, the nearest first. -/
structure Cursor where
  node : Node
  frames : List Frame := []
deriving Repr, Inhabited

namespace Cursor

/-- The first child. -/
def firstChild? (c : Cursor) : Option Cursor :=
  match c.node.children with
  | [] => none
  | child :: later => some ⟨child, ⟨c.node, later⟩ :: c.frames⟩

/-- The next sibling. -/
def nextSibling? (c : Cursor) : Option Cursor :=
  match c.frames with
  | ⟨parent, sibling :: later⟩ :: frames => some ⟨sibling, ⟨parent, later⟩ :: frames⟩
  | _ => none

/-- The node above. -/
def parent? (c : Cursor) : Option Cursor :=
  match c.frames with
  | [] => none
  | frame :: frames => some ⟨frame.parent, frames⟩

/-- The nodes above, the nearest first. -/
def ancestors (c : Cursor) : List Node := c.frames.map (·.parent)

/-- The next sibling of the nearest level that has one. -/
def climb? : List Frame → Option Cursor
  | [] => none
  | ⟨parent, sibling :: later⟩ :: frames => some ⟨sibling, ⟨parent, later⟩ :: frames⟩
  | ⟨_, []⟩ :: frames => climb? frames

/-- The cursor at the node that comes next in the order of the text. -/
def advance? (c : Cursor) : Option Cursor :=
  match c.firstChild? with
  | some child => some child
  | none => climb? c.frames

end Cursor

/-- A walk over the nodes of a tree; it is over when no cursor is left. -/
structure Preorder where
  cursor : Option Cursor
deriving Repr, Inhabited

namespace Preorder

/-- The walk that starts at a node. -/
def start (root : Node) : Preorder := ⟨some ⟨root, []⟩⟩

/-- The node under the cursor, and the rest of the walk. -/
def next (p : Preorder) : Option Cursor × Preorder :=
  match p.cursor with
  | none => (none, p)
  | some c => (some c, ⟨c.advance?⟩)

/-- The first nodes of a walk. -/
def take : (count : Nat) → Preorder → List Cursor
  | 0, _ => []
  | count + 1, p =>
    match p.next with
    | (none, _) => []
    | (some c, rest) => c :: take count rest

end Preorder

/-- All places of a tree in the order of the text. -/
def Node.walk (root : Node) : List Cursor := (Preorder.start root).take root.size

end PubSweep.Syntax
