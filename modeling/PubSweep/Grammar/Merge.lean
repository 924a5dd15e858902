import PubSweep.Grammar.States
import PubSweep.Grammar.TokenConflicts

/-!
Fewer states: states of one core are one state where no token tells them apart.

Two states may be one if they do the same on the tokens valid in both, and a token valid in one
alone takes no text from the tokens of the other.  States whose successors stay apart stay apart.
-/

namespace PubSweep.Grammar

/-- Calls `f` for each symbol of a mask below a bound. -/
def foldMask {α : Type} (bound mask : Nat) (f : α → Nat → α) (init : α) : α :=
  (maskMembers bound mask).foldl f init

/-- The union of the masks that a table gives to the symbols of a mask. -/
def unionOver (bound : Nat) (table : Array Nat) (mask : Nat) : Nat :=
  foldMask bound mask (fun acc s => acc ||| table.getD s 0) 0

/-- The converse of a relation on symbols that is kept as a table of masks. -/
def converse (bound : Nat) (table : Array Nat) : Array Nat :=
  (List.range bound).foldl
    (fun acc s => foldMask bound (table.getD s 0) (fun acc x => acc.modify x (· ||| maskOf s)) acc)
    (Array.replicate bound 0)

/-- The mask of all symbols from `lo` to below `hi`. -/
def maskRange (lo hi : Nat) : Nat := (1 <<< hi) - (1 <<< lo)

/-- What merging needs to know about the tokens of a grammar. -/
structure MergeContext where
  grammar : Productions
  conflicts : TokenConflicts
  cores : Array Core
  states : Array ParseState
  /-- For each token, the tokens that must not join a state in which it is valid. -/
  bars : Array Nat
  /-- For each state, the tokens on which it reduces. -/
  reduces : Array Nat
  /-- For each state, the tokens that are valid. -/
  valid : Array Nat
  /-- For each state, the tokens that must not join it. -/
  barred : Array Nat

namespace MergeContext

/-- For each token, the tokens that may take text from it, keywords and identifiers aside. -/
def barsOf (g : Productions) (t : TokenConflicts) : Array Nat :=
  let table := converse g.firstScanned t.conflicts
  table.mapIdx fun s mask =>
    if s = g.word then mask ^^^ (mask &&& t.keywords)
    else if t.keywords.testBit s then mask ^^^ (mask &&& maskOf g.word)
    else mask

/-- Prepares the merging of states. -/
def of (g : Productions) (t : TokenConflicts) (cores : Array Core) (states : Array ParseState) :
    MergeContext :=
  let bars := barsOf g t
  let scanned := maskRange g.firstScanned (g.commentEnd + 1)
  let patterns := maskRange 1 g.firstScanned
  let valid := states.map (·.row.valid)
  { grammar := g, conflicts := t, cores, states, bars, valid
    reduces := states.map (·.row.reduces)
    barred := valid.map fun mask => scanned ||| unionOver g.firstScanned bars (mask &&& patterns) }

variable (ctx : MergeContext)

/-- Whether two states of one core do different things on a token, or must not share tokens. -/
def rowsConflict (i j : Nat) : Bool :=
  let a := (ctx.states.getD i default).row
  let b := (ctx.states.getD j default).row
  let validA := ctx.valid.getD i 0
  let validB := ctx.valid.getD j 0
  let both := validA &&& validB
  (validA ^^^ both) &&& ctx.barred.getD j 0 ≠ 0 ||
  (validB ^^^ both) &&& ctx.barred.getD i 0 ≠ 0 ||
  (ctx.reduces.getD i 0 ^^^ ctx.reduces.getD j 0) &&& both ≠ 0 ||
  (a.shifts ^^^ b.shifts) &&& both ≠ 0 ||
  (a.repeats ^^^ b.repeats) &&& both ≠ 0 ||
  a.reductions.any (fun x => b.reductions.any fun y => x.1 &&& y.1 ≠ 0 && x.2 != y.2)

/-- Whether one of the first `n` successors of a core is in different groups for two states;
`counts` says which symbols count. -/
def targetsDiffer (groupOf : Array Nat) (counts : Nat → Bool) (shifts : Array Shift)
    (a b : Array Nat) : (n : Nat) → Bool
  | 0 => false
  | n + 1 =>
    (groupOf.getD (a.getD n 0) 0 != groupOf.getD (b.getD n 0) 0 &&
      counts (shifts.getD n default).symbol) ||
      targetsDiffer groupOf counts shifts a b n

/-- Whether some symbol leads two states of one core to states of different groups; rules count only
on demand. -/
def successorsDiffer (rules : Bool) (groupOf : Array Nat) (i j : Nat) : Bool :=
  let a := ctx.states.getD i default
  let b := ctx.states.getD j default
  let shifts := (ctx.cores.getD a.core default).shifts
  let both := a.row.shifts &&& b.row.shifts
  targetsDiffer groupOf
    (fun s => if ctx.grammar.isVariable s then rules else both.testBit s)
    shifts a.targets b.targets shifts.size

/-- Splits a group: each state that stays agrees with all that stay; the others leave together. -/
def splitGroup (apart : Nat → Nat → Bool) :
    (fuel : Nat) → List Nat → (stay leave : List Nat) → List Nat × List Nat
  | 0, ids, stay, leave => (stay.reverse ++ ids, leave)
  | _, [], stay, leave => (stay.reverse, leave)
  | fuel + 1, i :: rest, stay, leave =>
    let (gone, rest) := rest.partition (apart i)
    splitGroup apart fuel rest (i :: stay) (leave ++ gone)

/-- Groups of states, and the group of each state. -/
structure Groups where
  members : Array (List Nat)
  groupOf : Array Nat
deriving Inhabited

/-- Splits every group in turn, those split off included. -/
def splitAll (apart : Array Nat → Nat → Nat → Bool) :
    (fuel next : Nat) → (changed : Bool) → Groups → Groups × Bool
  | 0, _, changed, g => (g, changed)
  | fuel + 1, next, changed, g =>
    match g.members[next]? with
    | none => (g, changed)
    | some ids =>
      let (stay, leave) := splitGroup (apart g.groupOf) ids.length ids [] []
      match leave with
      | [] => splitAll apart fuel (next + 1) changed g
      | _ =>
        let new := g.members.size
        let g : Groups :=
          { members := (g.members.set! next stay).push leave
            groupOf := leave.foldl (fun acc i => acc.set! i new) g.groupOf }
        splitAll apart fuel (next + 1) true g

/-- Splits groups by their successors until none differ. -/
def splitBySuccessors : (fuel : Nat) → Groups → Groups
  | 0, g => g
  | fuel + 1, g =>
    let (g, changed) := splitAll (ctx.successorsDiffer true) 1000000 0 false g
    if changed then splitBySuccessors fuel g else g

/-- Groups of states that are one state. -/
def groups : Groups :=
  let initial : Groups :=
    { members := ctx.states.foldl
        (fun (acc, n) s => (acc.modify s.core (n :: ·), n + 1))
        (Array.replicate ctx.cores.size ([] : List Nat), 0) |>.1.map List.reverse
      groupOf := ctx.states.map (·.core) }
  let apart (groupOf : Array Nat) (i j : Nat) : Bool :=
    ctx.rowsConflict i j || ctx.successorsDiffer false groupOf i j
  let (g, _) := splitAll apart 1000000 0 false initial
  ctx.splitBySuccessors 1000 g

/-- The rows of the states of a group as one. -/
def joinRows (a b : Row) : Row :=
  { reductions := b.reductions.foldl
      (fun acc (mask, items) =>
        if acc.any (·.2 == items) then
          acc.map fun x => if x.2 == items then (x.1 ||| mask, items) else x
        else acc ++ [(mask, items)])
      a.reductions
    shifts := a.shifts ||| b.shifts
    repeats := a.repeats ||| b.repeats }

/-- The merged states.  The groups of states `0` and `1` come first. -/
def merged : Array ParseState :=
  let g := ctx.groups
  let swap (g : Groups) (state place : Nat) : Groups :=
    let here := g.groupOf.getD state 0
    let members := g.members.swapIfInBounds here place
    { members
      groupOf := g.groupOf.map fun x =>
        if x = here then place else if x = place then here else x }
  let g := swap (swap g 0 0) 1 1
  g.members.map fun ids =>
    let first := ctx.states.getD (ids.headD 0) default
    let row := ids.tail.foldl (fun row i => joinRows row (ctx.states.getD i default).row) first.row
    { first with row, targets := first.targets.map fun t => g.groupOf.getD t 0 }

end MergeContext

end PubSweep.Grammar
