import PubSweep.Grammar.Items

/-!
Sets of items without their lookahead, and how lookahead moves through them.

A core is a set of items.  Closing it adds the items of rules after a dot; what may follow an added
item is a fixed mask of tokens together with what follows some items of the core.  So the lookahead
of a successor is a fixed function of the lookahead of the core.
-/

namespace PubSweep.Grammar

/-- Lookahead as a function of a core's lookahead: fixed tokens, and the core's items whose tokens
come in. -/
structure Follow where
  tokens : Nat := 0
  sources : List Nat := []
deriving Inhabited

namespace Follow

/-- Both lookaheads together. -/
def union (a b : Follow) : Follow := ⟨a.tokens ||| b.tokens, unionSorted a.sources b.sources⟩
where
  /-- Union of strictly increasing lists. -/
  unionSorted (a b : List Nat) : List Nat :=
    match a, b with
    | [], b => b
    | a, [] => a
    | x :: xs, y :: ys =>
      if x < y then x :: unionSorted xs (y :: ys)
      else if y < x then y :: unionSorted (x :: xs) ys
      else x :: unionSorted xs ys
  termination_by a.length + b.length

/-- The tokens of a lookahead, given the tokens of the core's items. -/
def eval (f : Follow) (masks : Array Nat) : Nat :=
  f.sources.foldl (fun acc i => acc ||| masks.getD i 0) f.tokens

end Follow

/-- A finished item of a core. -/
structure Final where
  item : Nat
  head : Nat
  count : Nat
  precedence : Int
  grouping : Option Grouping
  follow : Follow
deriving Inhabited

/-- An item of a core that is under way: the tokens that may come next. -/
structure Pending where
  opens : Nat
  precedence : Int
  head : Nat
deriving Inhabited

/-- A successor of a core, with the lookahead of each of its items. -/
structure Shift where
  symbol : Nat
  target : Nat
  follows : Array Follow
deriving Inhabited

/-- A set of items, closed and with its successors. -/
structure Core where
  kernel : Array Nat
  finals : Array Final
  pending : Array Pending
  shifts : Array Shift
deriving Inhabited

/-- An item of a closed set. -/
structure ClosureEntry where
  item : Nat
  follow : Follow
deriving Inhabited

/-- A closed set under construction: its entries, and for each item the entry's place plus one. -/
structure Closure where
  entries : Array ClosureEntry
  places : Array Nat

namespace Closure

/-- Adds an item, or more lookahead for an item. -/
def put (c : Closure) (item : Nat) (follow : Follow) : Closure :=
  match c.places.getD item 0 with
  | 0 => ⟨c.entries.push ⟨item, follow⟩, c.places.set! item (c.entries.size + 1)⟩
  | p + 1 => ⟨c.entries.modify p fun e => { e with follow := e.follow.union follow }, c.places⟩

/-- The places of an empty set again. -/
def clear (c : Closure) : Array Nat :=
  c.entries.foldl (fun places e => places.set! e.item 0) c.places

end Closure

/-- The cores found so far, and all that is needed to find more. -/
structure CoreTable where
  items : ItemTable
  kernels : Array (Array Nat) := #[]
  numbers : Std.HashMap (Array Nat) Nat := {}
  cores : Array Core := #[]
  places : Array Nat := #[]
deriving Inhabited

/-- What of a grammar the construction of cores needs. -/
structure CoreContext where
  grammar : Productions
  firsts : Array Nat
  carriers : Array Bool
  additions : Array (Array Productions.Addition)

namespace CoreTable

/-- The number of a core, a new one if need be. -/
def number (t : CoreTable) (kernel : Array Nat) : Nat × CoreTable :=
  match t.numbers[kernel]? with
  | some n => (n, t)
  | none =>
    let n := t.kernels.size
    (n, { t with kernels := t.kernels.push kernel, numbers := t.numbers.insert kernel n })

end CoreTable

namespace CoreContext

variable (ctx : CoreContext)

/-- Adds to a set one item and all that its next symbol brings in. -/
def putItem (items : ItemTable) (source : Nat) (c : Closure) (n : Nat) : Closure :=
  let i := items.item n
  let own : Follow := ⟨0, [source]⟩
  let c := c.put n own
  match i.step? with
  | none => c
  | some s =>
    if ctx.grammar.isVariable s.symbol then
      let after : Follow :=
        match i.steps[i.dot + 1]? with
        | some r => ⟨ctx.grammar.edgeMask ctx.firsts r.symbol, []⟩
        | none => own
      (ctx.additions.getD (s.symbol - ctx.grammar.firstVariable) #[]).foldl
        (fun c a => c.put a.item
          (if a.propagates then ⟨a.follow ||| after.tokens, after.sources⟩ else ⟨a.follow, []⟩))
        c
    else c

/-- Inserts an item of a successor, in the order of the items' numbers. -/
def insertItem (n : Nat) (f : Follow) : List (Nat × Follow) → List (Nat × Follow)
  | [] => [(n, f)]
  | (m, e) :: rest =>
    if n < m then (n, f) :: (m, e) :: rest
    else if n = m then (m, e.union f) :: rest
    else (m, e) :: insertItem n f rest

/-- Whether a finished item comes before another in the list of actions. -/
def Final.before (a b : Final) : Bool :=
  if a.count ≠ b.count then a.count < b.count
  else if a.head ≠ b.head then a.head < b.head
  else if a.precedence ≠ b.precedence then a.precedence < b.precedence
  else a.item ≤ b.item

/-- Closes one core and finds its successors. -/
def buildCore (t : CoreTable) (kernel : Array Nat) : CoreTable :=
  let g := ctx.grammar
  let (opened, items) := kernel.foldl
    (fun (acc, items) n =>
      let (l, items) := g.expandItem 10 n items
      (acc.push l, items))
    ((#[] : Array (List Nat)), t.items)
  let places := t.places ++ Array.replicate (items.items.size - t.places.size) 0
  let closure := opened.foldl
    (fun (c, source) l => (l.foldl (ctx.putItem items source) c, source + 1))
    (({ entries := #[], places } : Closure), 0) |>.1
  let entries := closure.entries
  let places := closure.clear
  let finals := entries.filterMap fun e =>
    let i := items.item e.item
    if i.dot = i.steps.size then
      some (⟨e.item, i.head, i.dot, i.precedence, i.grouping, e.follow⟩ : Final)
    else none
  let pending := entries.filterMap fun e =>
    let i := items.item e.item
    match i.step? with
    | some s =>
      if 0 < i.dot then some ⟨g.edgeMask ctx.firsts s.symbol, i.precedence, i.head⟩ else none
    | none => none
  let symbols := g.firstVariable + g.allVariables.size
  let (lists, items) := entries.foldl
    (fun ((lists, items) : Array (List (Nat × Follow)) × ItemTable) e =>
      match (items.item e.item).step? with
      | none => (lists, items)
      | some s =>
        let (n, items) := g.advanceItem ctx.carriers e.item items
        (lists.modify s.symbol (insertItem n e.follow), items))
    (Array.replicate symbols [], items)
  let order := (List.range symbols).filter g.isScanned ++
    (List.range symbols).filter (!g.isScanned ·)
  let (shifts, t) := order.foldl
    (fun ((shifts, t) : Array Shift × CoreTable) s =>
      match lists.getD s [] with
      | [] => (shifts, t)
      | l =>
        let (target, t) := t.number (l.map (·.1)).toArray
        (shifts.push ⟨s, target, (l.map (·.2)).toArray⟩, t))
    (#[], { t with items, places })
  let core : Core :=
    { kernel, pending, shifts
      finals := (finals.toList.mergeSort Final.before).toArray }
  { t with cores := t.cores.push core }

/-- Builds all cores that can be reached from those found so far. -/
def buildCores : (fuel : Nat) → CoreTable → CoreTable
  | 0, t => t
  | fuel + 1, t =>
    match t.kernels[t.cores.size]? with
    | none => t
    | some kernel => buildCores fuel (ctx.buildCore t kernel)

end CoreContext

/-- All cores of a grammar.  The first is empty, the second holds the start item, and the next ones
the comments, one for each token that opens a comment; those tokens are given with their cores. -/
structure Cores where
  items : ItemTable
  cores : Array Core
  comments : List (Nat × Nat)
deriving Inhabited

/-- The items that follow the opening token of comments, by token. -/
def Productions.commentItems (g : Productions) (t : ItemTable) :
    List (Nat × List Nat) × ItemTable :=
  g.comments.foldl
    (fun (acc, t) v => (g.variableOf v).productions.foldl
      (fun ((acc, t) : List (Nat × List Nat) × ItemTable) p =>
        match p with
        | [] => (acc, t)
        | s :: _ =>
          let (n, t) := t.number ⟨v, p.toArray, 1, false⟩
          let old := (acc.lookup s.symbol).getD []
          let rest := acc.filter (·.1 != s.symbol)
          (rest ++ [(s.symbol, if old.contains n then old else old ++ [n])], t))
      (acc, t))
    ([], t)

/-- Builds the cores of a grammar. -/
def Productions.buildAllCores (g : Productions) : Cores :=
  let firsts := g.firstSets
  let (opening, items) := g.openingItems {}
  let additions := (Array.range g.allVariables.size).map (g.additionsOf firsts opening)
  let ctx : CoreContext := ⟨g, firsts, g.fieldCarriers, additions⟩
  let start : Item := ⟨Productions.endSymbol, #[{ symbol := g.firstVariable }], 0, false⟩
  let (startItem, items) := items.number start
  let (comments, items) := g.commentItems items
  let t : CoreTable := { items }
  let (_, t) := t.number #[]
  let (_, t) := t.number #[startItem]
  let comments := comments.mergeSort fun a b => a.1 ≤ b.1
  let (numbered, t) := comments.foldl
    (fun ((acc, t) : List (Nat × Nat) × CoreTable) (s, l) =>
      let (n, t) := t.number (l.mergeSort (· ≤ ·)).toArray
      (acc ++ [(s, n)], t))
    ([], t)
  let t := ctx.buildCores 100000 t
  ⟨t.items, t.cores, numbered⟩

end PubSweep.Grammar
