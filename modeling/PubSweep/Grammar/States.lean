import PubSweep.Grammar.Cores

/-!
Parse states: cores with lookahead, and what to do on each token.

A state shifts a token, reduces by a finished item, or both.  Where both are possible, precedence
and grouping decide; within one repetition the shift is kept and marked, and all other choices are
kept for the parser to follow side by side.
-/

namespace PubSweep.Grammar

/-- What a state does on each token, as masks. -/
structure Row where
  /-- Tokens with the finished items by which to reduce. -/
  reductions : List (Nat × List Nat) := []
  /-- Tokens to shift. -/
  shifts : Nat := 0
  /-- Tokens whose shift only lengthens a repetition that could end as well. -/
  repeats : Nat := 0
deriving Inhabited

namespace Row

/-- Tokens on which to reduce. -/
def reduces (r : Row) : Nat := r.reductions.foldl (fun acc x => acc ||| x.1) 0

/-- Tokens on which anything is done. -/
def valid (r : Row) : Nat := r.reduces ||| r.shifts

end Row

/-- A core with the lookahead of its items, and the states its successors lead to. -/
structure ParseState where
  core : Nat
  lookahead : Array Nat
  row : Row := {}
  targets : Array Nat := #[]
deriving Inhabited

/-- A state as a key for looking it up. -/
structure StateKey where
  core : Nat
  lookahead : Array Nat
deriving BEq

instance : Hashable StateKey where
  hash k := k.lookahead.foldl
    (fun h m => mixHash (mixHash (mixHash h (hash m)) (hash (m >>> 64))) (hash (m >>> 128)))
    (hash k.core)

/-! ## Conflicts -/

/-- Splits masks so that the tokens of each part call for the same finished items. -/
def splitRegions (finals : Array Final) (lookahead : Array Nat) : List (Nat × List Final) :=
  finals.foldl
    (fun regions f =>
      let m := f.follow.eval lookahead
      let taken := regions.foldl (fun acc r => acc ||| r.1) 0
      let both := regions.filterMap fun r =>
        if r.1 &&& m = 0 then none else some (r.1 &&& m, r.2 ++ [f])
      let old := regions.filterMap fun r =>
        let rest := r.1 ^^^ (r.1 &&& m)
        if rest = 0 then none else some (rest, r.2)
      let new := m ^^^ (m &&& taken)
      both ++ old ++ (if new = 0 then [] else [(new, [f])]))
    []

/-- The finished items of the highest precedence. -/
def strongest (fs : List Final) : List Final :=
  let top := fs.foldl (fun best f => max best f.precedence) ((fs.map (·.precedence)).headD 0)
  fs.filter (·.precedence = top)

/-- What is kept of a conflict between shifting and reducing. -/
inductive Verdict where
  | shift
  | reduce
  | both
  | repetition
deriving DecidableEq

/-- Settles a conflict between the items under way and the finished items on one token. -/
def settle (isRepetition : Nat → Bool) (pending : List Pending) (all strong : List Final) :
    Verdict :=
  let heads := pending.map (·.head) ++ all.map (·.head)
  let head := heads.headD 0
  if isRepetition head && heads.all (· == head) then .repetition
  else
    let level := (strong.map (·.precedence)).headD 0
    let more := pending.any fun p => level < p.precedence
    let less := pending.any fun p => p.precedence < level
    if more && !less then .shift
    else if less && !more then .reduce
    else if more then .both
    else if strong.all (·.grouping == some .left) then .reduce
    else if strong.all (·.grouping == some .right) then .shift
    else .both

/-- Adds the tokens of one region, all of which call for the same finished items. -/
def addRegion (isRepetition : Nat → Bool) (bound : Nat) (core : Core) (row : Row)
    (region : Nat × List Final) : Row :=
  let (mask, all) := region
  let strong := strongest all
  let items := strong.map (·.item)
  let contested := mask &&& row.shifts
  if contested = 0 then { row with reductions := (mask, items) :: row.reductions }
  else
    let (row, kept) := (maskMembers bound contested).foldl
      (fun ((row, kept) : Row × Nat) t =>
        let pending := core.pending.toList.filter (·.opens.testBit t)
        match settle isRepetition pending all strong with
        | .shift => (row, kept ^^^ maskOf t)
        | .reduce => ({ row with shifts := row.shifts ^^^ maskOf t }, kept)
        | .both => (row, kept)
        | .repetition => ({ row with repeats := row.repeats ||| maskOf t }, kept))
      (row, mask)
    if kept = 0 then row else { row with reductions := (kept, items) :: row.reductions }

/-- What a state does on each token, comments aside. -/
def Core.row (isRepetition : Nat → Bool) (bound : Nat) (core : Core) (lookahead : Array Nat) :
    Row :=
  let shifts := core.shifts.foldl
    (fun acc s => if s.symbol < bound then acc ||| maskOf s.symbol else acc) 0
  (splitRegions core.finals lookahead).foldl (addRegion isRepetition bound core) { shifts }

/-! ## All states -/

/-- The states found so far. -/
structure StateTable where
  states : Array ParseState := #[]
  numbers : Std.HashMap StateKey Nat := {}
deriving Inhabited

namespace StateTable

/-- The number of a state, a new one if need be. -/
def number (t : StateTable) (core : Nat) (lookahead : Array Nat) : Nat × StateTable :=
  let k : StateKey := ⟨core, lookahead⟩
  match t.numbers[k]? with
  | some n => (n, t)
  | none =>
    let n := t.states.size
    (n, { states := t.states.push { core, lookahead }, numbers := t.numbers.insert k n })

/-- Finds the successors of a state and what it does on each token. -/
def complete (rowOf : Core → Array Nat → Row) (cores : Array Core) (t : StateTable) (n : Nat) :
    StateTable :=
  let s := t.states.getD n default
  let core := cores.getD s.core default
  let (targets, t) := core.shifts.foldl
    (fun ((targets, t) : Array Nat × StateTable) x =>
      let (m, t) := t.number x.target (x.follows.map (·.eval s.lookahead))
      (targets.push m, t))
    (#[], t)
  let row := rowOf core s.lookahead
  { t with states := t.states.modify n fun s => { s with row, targets } }

/-- Completes all states from the given one on, new ones included. -/
def completeAll (rowOf : Core → Array Nat → Row) (cores : Array Core) :
    (fuel n : Nat) → StateTable → StateTable
  | 0, _, t => t
  | fuel + 1, n, t =>
    if n < t.states.size then
      completeAll rowOf cores fuel (n + 1) (t.complete rowOf cores n)
    else t

end StateTable

/-- All states of a grammar.  State `0` is for errors and state `1` is the start; a state that
reads a comment ends where the comment does. -/
def Productions.buildStates (g : Productions) (c : Cores) : Array ParseState :=
  let isRepetition (s : Nat) : Bool := (g.variableOf s).presence == .auxiliary && g.isVariable s
  let bound := g.commentEnd + 1
  let rowOf (core : Core) (lookahead : Array Nat) : Row :=
    let row := core.row isRepetition bound lookahead
    if row.reduces.testBit g.commentEnd then row
    else { row with shifts := c.comments.foldl (fun acc x => acc ||| maskOf x.1) row.shifts }
  let t : StateTable := {}
  let (_, t) := t.number 0 #[]
  let (_, t) := t.number 1 #[maskOf Productions.endSymbol]
  let t := c.comments.foldl
    (fun t x =>
      (t.number x.2 ((c.cores.getD x.2 default).kernel.map fun _ => maskOf g.commentEnd)).2)
    t
  (t.completeAll rowOf c.cores 1000000 0).states

end PubSweep.Grammar
