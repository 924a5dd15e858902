import PubSweep.Parsing.Subtree

/-!
A stack that several parses share.

Each version of the stack is a path of links down to the first node.  Versions that reach the same
state at the same place are merged: their top node then has several links, and everything below is
shared.
-/

namespace PubSweep.Parsing

open Grammar

/-- A link to the node below, with the subtree between; a link without one marks an error. -/
structure Link where
  node : Nat
  tree : Option Subtree
deriving Inhabited

/-- One node of the shared stack. -/
structure StackNode where
  state : Nat
  links : Array Link := #[]
  position : Nat := 0
  cost : Nat := 0
  /-- How many nodes have been built on the way here. -/
  count : Nat := 0
deriving Inhabited

/-- A state that a version was in before an error, and how far down it is. -/
structure SummaryEntry where
  position : Nat
  depth : Nat
  state : Nat
deriving Inhabited, Repr

/-- Whether a version goes on. -/
inductive Status where
  | active
  | halted
  /-- The version cannot use this token. -/
  | paused (lookahead : Subtree)
deriving Inhabited

namespace Status

/-- Whether the version goes on. -/
def isActive : Status → Bool
  | .active => true
  | _ => false

/-- Whether the version is over. -/
def isHalted : Status → Bool
  | .halted => true
  | _ => false

/-- Whether the version waits for recovery. -/
def isPaused : Status → Bool
  | .paused _ => true
  | _ => false

end Status

/-- One version of the stack. -/
structure Head where
  node : Nat
  /-- The node count when the last error was met. -/
  countAtError : Nat := 0
  /-- The state of the scanner. -/
  scanner : Option Nat := none
  status : Status := .active
  summary : Option (Array SummaryEntry) := none
deriving Inhabited

/-- The shared stack. -/
structure Stack where
  nodes : Array StackNode
  heads : Array Head
deriving Inhabited

/-- Subtrees taken off a version, and the version that is left. -/
structure Slice where
  version : Nat
  trees : List Subtree
deriving Inhabited

/-- A walk down one path of the stack. -/
structure Walker where
  node : Nat
  /-- The subtrees passed, the lowest first. -/
  trees : List Subtree := []
  /-- How many of them are no extras, errors counted as one. -/
  count : Nat := 0

/-- One step down a link. -/
def Walker.follow (w : Walker) (l : Link) : Walker :=
  match l.tree with
  | none => { w with node := l.node, count := w.count + 1 }
  | some t =>
    { node := l.node
      trees := t :: w.trees
      count := if t.info.extra then w.count else w.count + 1 }

/-- What a walk does at a node. -/
structure Visit where
  /-- Take off what was passed. -/
  take : Bool
  /-- Go no further. -/
  stop : Bool

namespace Stack

/-- At most this many links leave a node. -/
def maxLinks : Nat := 8

/-- At most this many paths are walked at once. -/
def maxWalkers : Nat := 64

/-- The stack of a parse that has not started. -/
def initial : Stack :=
  { nodes := #[{ state := 1 }], heads := #[{ node := 0 }] }

variable (s : Stack)

/-- A node of the stack. -/
def node (n : Nat) : StackNode := s.nodes.getD n default

/-- A version of the stack. -/
def head (v : Nat) : Head := s.heads.getD v default

/-- The top node of a version. -/
def top (v : Nat) : StackNode := s.node (s.head v).node

/-- The state of a version. -/
def state (v : Nat) : Nat := (s.top v).state

/-- How far a version has read. -/
def position (v : Nat) : Nat := (s.top v).position

/-- The number of versions. -/
def versions : Nat := s.heads.size

/-- Removes a version. -/
def remove (v : Nat) : Stack := { s with heads := s.heads.eraseIdxIfInBounds v }

/-- Changes a version. -/
def modifyHead (v : Nat) (f : Head → Head) : Stack := { s with heads := s.heads.modify v f }

/-- Ends a version. -/
def halt (v : Nat) : Stack := s.modifyHead v fun h => { h with status := .halted }

/-- Pushes a subtree, or the mark of an error, and goes to a state. -/
def push (table : Table) (v : Nat) (tree : Option Subtree) (state : Nat) : Stack :=
  let h := s.head v
  let below := s.node h.node
  let link : Link := ⟨h.node, tree⟩
  let new : StackNode :=
    match tree with
    | none => { below with state, links := #[link] }
    | some t =>
      { state
        links := #[link]
        position := t.info.stop
        cost := below.cost + t.cost
        count := below.count + t.weight table }
  let h := { h with node := s.nodes.size }
  { nodes := s.nodes.push new
    heads := s.heads.setIfInBounds v
      (if tree.isNone then { h with countAtError := new.count } else h) }

/-- Whether two subtrees are the same for the rest of the parse. -/
def sameTree (a b : Option Subtree) : Bool :=
  match a, b with
  | none, none => true
  | some x, some y =>
    x.kind == y.kind &&
      ((0 < x.cost && 0 < y.cost) ||
        (x.info.start - x.info.before == y.info.start - y.info.before &&
          x.info.stop - x.info.start == y.info.stop - y.info.start &&
          x.children.length == y.children.length &&
          x.info.extra == y.info.extra &&
          x.info.scanner == y.info.scanner))
  | _, _ => false

/-- Adds a link to a node.  Where an equal subtree leads to a node that could be merged, the links
of that node are added further down. -/
def addLink (table : Table) : (fuel : Nat) → Array StackNode → Nat → Link → Array StackNode
  | 0, nodes, _, _ => nodes
  | fuel + 1, nodes, n, link =>
    if link.node = n then nodes
    else
      let self := nodes.getD n default
      let below := nodes.getD link.node default
      let mergeable (e : Link) : Bool :=
        let other := nodes.getD e.node default
        e.node = link.node ||
          (other.state = below.state && other.position = below.position &&
            other.cost = below.cost)
      match self.links.find? fun e => sameTree e.tree link.tree && mergeable e with
      | some e =>
        if e.node = link.node then nodes
        else below.links.foldl (fun nodes l => addLink table fuel nodes e.node l) nodes
      | none =>
        if self.links.size = maxLinks then nodes
        else
          let weight := (link.tree.map (·.weight table)).getD 0
          nodes.setIfInBounds n
            { self with
              links := self.links.push link
              count := max self.count (below.count + weight) }

/-- Whether two versions could be one. -/
def canMerge (v w : Nat) : Bool :=
  let a := s.head v
  let b := s.head w
  let x := s.node a.node
  let y := s.node b.node
  a.status.isActive && b.status.isActive && x.state == y.state && x.position == y.position &&
    x.cost == y.cost && a.scanner == b.scanner

/-- Merges a later version into an earlier one, if they could be one. -/
def merge (table : Table) (v w : Nat) : Option Stack :=
  if s.canMerge v w then
    let n := (s.head v).node
    let nodes := (s.top w).links.foldl (fun nodes l => addLink table (s.nodes.size + 1) nodes n l)
      s.nodes
    let top := nodes.getD n default
    let heads :=
      if top.state = 0 then s.heads.modify v fun h => { h with countAtError := top.count }
      else s.heads
    some { nodes, heads := heads.eraseIdxIfInBounds w }
  else none

/-- Puts a later version in the place of an earlier one. -/
def renumber (v w : Nat) : Stack :=
  if v = w then s
  else
    let source := s.head v
    let target := s.head w
    let moved := { source with summary := source.summary.or target.summary }
    { s with heads := (s.heads.setIfInBounds w moved).eraseIdxIfInBounds v }

/-- Adds a copy of a version. -/
def copy (v : Nat) : Nat × Stack :=
  (s.heads.size, { s with heads := s.heads.push { s.head v with summary := none } })

/-- Adds taken subtrees to the slices; versions that end at one node are one. -/
def addSlice (original node : Nat) (trees : List Subtree) (slices : List Slice) :
    Stack × List Slice :=
  let here := slices.reverse.findIdx? fun x => (s.head x.version).node == node
  match here with
  | some back =>
    let i := slices.length - back
    let version := (slices.getD (i - 1) default).version
    (s, slices.take i ++ [⟨version, trees⟩] ++ slices.drop i)
  | none =>
    let h := s.head original
    let new : Head := { node, countAtError := h.countAtError, scanner := h.scanner }
    ({ s with heads := s.heads.push new }, slices ++ [⟨s.heads.size, trees⟩])

/-- A walk under way: the stack, the slices taken and what the visitor remembers. -/
structure Walk (σ : Type) where
  stack : Stack
  slices : List Slice
  memory : σ

/-- One round of a walk: every walker visits its node and goes down one link, the first one; the
other links get walkers of their own. -/
def walkRound {σ : Type} (version : Nat) (visit : σ → Walker → StackNode → σ × Visit) :
    List Walker → (kept new : List Walker) → Walk σ → List Walker × Walk σ
  | [], kept, new, walk => (kept.reverse ++ new.reverse, walk)
  | w :: rest, kept, new, walk =>
    let node := walk.stack.node w.node
    let (memory, v) := visit walk.memory w node
    let walk := { walk with memory }
    let walk :=
      if v.take then
        let (stack, slices) := walk.stack.addSlice version w.node w.trees walk.slices
        { walk with stack, slices }
      else walk
    match node.links.toList with
    | [] => walkRound version visit rest kept new walk
    | first :: others =>
      if v.stop then walkRound version visit rest kept new walk
      else
        let room := maxWalkers - (kept.length + 1 + rest.length + new.length)
        let branches := (others.take room).map (w.follow ·)
        walkRound version visit rest (w.follow first :: kept) (branches.reverse ++ new) walk

/-- Walks down all paths of a version. -/
def walkDown {σ : Type} (version : Nat) (visit : σ → Walker → StackNode → σ × Visit) :
    (fuel : Nat) → List Walker → Walk σ → Walk σ
  | 0, _, walk => walk
  | _, [], walk => walk
  | fuel + 1, walkers, walk =>
    let (walkers, walk) := walkRound version visit walkers [] [] walk
    walkDown version visit fuel walkers walk

/-- Walks down all paths of a version. -/
def walk {σ : Type} (version : Nat) (visit : σ → Walker → StackNode → σ × Visit) (memory : σ) :
    Walk σ :=
  walkDown version visit (s.nodes.size + 1) [{ node := (s.head version).node }]
    { stack := s, slices := [], memory }

/-- Takes a number of subtrees off a version, along every path. -/
def popCount (version count : Nat) : Stack × List Slice :=
  let w := s.walk version
    (fun () w _ => ((), if w.count = count then ⟨true, true⟩ else ⟨false, false⟩)) ()
  (w.stack, w.slices)

/-- Takes everything off a version, along every path. -/
def popAll (version : Nat) : Stack × List Slice :=
  let w := s.walk version (fun () _ n => ((), ⟨n.links.isEmpty, false⟩)) ()
  (w.stack, w.slices)

/-- Takes an error off the top of a version. -/
def popError (version : Nat) : Stack × Option Subtree :=
  if (s.top version).links.any fun l => l.tree.any (·.isError) then
    let w := s.walk version
      (fun found w _ =>
        match w.trees with
        | [] => (found, ⟨false, false⟩)
        | t :: _ => if !found && t.isError then (true, ⟨true, true⟩) else (found, ⟨false, true⟩))
      false
    match w.slices with
    | [] => (w.stack, none)
    | slice :: _ => (w.stack.renumber slice.version version, slice.trees.head?)
  else (s, none)

/-- How far down the states before an error are remembered. -/
def summaryDepth : Nat := 16

/-- Remembers the states below the top of a version. -/
def recordSummary (version : Nat) : Stack :=
  let w := s.walk version
    (fun (summary : Array SummaryEntry) w n =>
      if summaryDepth < w.count then (summary, ⟨false, true⟩)
      else if summary.any fun e => e.depth == w.count && e.state == n.state then
        (summary, ⟨false, false⟩)
      else (summary.push ⟨n.position, w.count, n.state⟩, ⟨false, false⟩))
    #[]
  s.modifyHead version fun h => { h with summary := some w.memory }

/-- The cost of a version; one that has just met an error counts the error. -/
def cost (v : Nat) : Nat :=
  let h := s.head v
  let n := s.node h.node
  let fresh := n.state = 0 && (n.links[0]?).any (·.tree.isNone)
  n.cost + if h.status.isPaused || fresh then Subtree.errorCost else 0

/-- The nodes built since the last error; a version that has lost nodes counts anew. -/
def progress (v : Nat) : Nat × Stack :=
  let h := s.head v
  let count := (s.node h.node).count
  if count < h.countAtError then
    (0, s.modifyHead v fun h => { h with countAtError := count })
  else (count - h.countAtError, s)

/-- Whether something was read on the way to a node since the given count of nodes. -/
def hasRead (countAtError : Nat) : (fuel : Nat) → StackNode → Bool
  | 0, _ => false
  | fuel + 1, n =>
    match n.links[0]? with
    | none => false
    | some link =>
      match link.tree with
      | none => false
      | some t =>
        if t.info.before < t.info.stop then true
        else if countAtError < n.count && t.cost = 0 then
          hasRead countAtError fuel (s.node link.node)
        else false

/-- Whether a version has read anything since its last error. -/
def hasAdvanced (v : Nat) : Bool :=
  (s.top v).cost = 0 || s.hasRead (s.head v).countAtError (s.nodes.size + 1) (s.top v)

end Stack

end PubSweep.Parsing
