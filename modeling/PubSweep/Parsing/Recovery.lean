import PubSweep.Parsing.Reduction

/-!
Recovery from errors.

A version that cannot use a token tries three things: to guess a missing token, to go back to a
state in which the token is welcome, and to skip the token.  Each has a cost, and versions that cost
much more than others are given up.
-/

namespace PubSweep.Parsing

open Grammar

/-- What versions are compared by. -/
structure VersionStatus where
  cost : Nat
  progress : Nat
  inError : Bool

/-- How two versions compare. -/
inductive Preference where
  /-- Only the first is worth going on with. -/
  | takeFirst
  | preferFirst
  | none
  | preferSecond
  /-- Only the second is worth going on with. -/
  | takeSecond
deriving DecidableEq

/-- From this difference on, weighted by progress, the dearer version is given up. -/
def maxCostDifference : Nat := 1800

/-- Compares two versions. -/
def VersionStatus.compare (a b : VersionStatus) : Preference :=
  if !a.inError && b.inError then if a.cost < b.cost then .takeFirst else .preferFirst
  else if a.inError && !b.inError then if b.cost < a.cost then .takeSecond else .preferSecond
  else if a.cost < b.cost then
    if maxCostDifference < (b.cost - a.cost) * (1 + a.progress) then .takeFirst else .preferFirst
  else if b.cost < a.cost then
    if maxCostDifference < (a.cost - b.cost) * (1 + b.progress) then .takeSecond else .preferSecond
  else .none

/-- The status of a version.  Asking for it renews the count of nodes since the last error. -/
def Stack.statusOf (s : Stack) (v : Nat) : VersionStatus × Stack :=
  let paused := (s.head v).status.isPaused
  let cost := s.cost v + if paused then Subtree.skipCost else 0
  let inError := paused || s.state v = 0
  let (progress, s) := s.progress v
  (⟨cost, progress, inError⟩, s)

namespace Parse

variable (table : Table) (source : Source)

/-- Looks through the versions from `i` on for one that is better than a status. -/
def findBetter (v position : Nat) (status : VersionStatus) : (fuel i : Nat) → Stack → Bool × Stack
  | 0, _, s => (false, s)
  | fuel + 1, i, s =>
    if s.versions ≤ i then (false, s)
    else if i = v || !(s.head i).status.isActive || s.position i < position then
      findBetter v position status fuel (i + 1) s
    else
      let (other, s) := s.statusOf i
      match status.compare other with
      | .takeSecond => (true, s)
      | .preferSecond =>
        if s.canMerge i v then (true, s) else findBetter v position status fuel (i + 1) s
      | _ => findBetter v position status fuel (i + 1) s

/-- Whether there is a better version than `v` would be at a cost. -/
def hasBetter (p : Parse) (v cost : Nat) : Bool × Parse :=
  if p.finished.any fun t => t.info.innerCost ≤ cost then (true, p)
  else
    let position := p.stack.position v
    let (progress, s) := p.stack.progress v
    let (found, s) := findBetter v position ⟨cost, progress, false⟩ s.versions 0 s
    (found, { p with stack := s })

/-- Puts what lies above a state into an error, if the version gets to that state by taking off
`depth` subtrees. -/
def recoverTo (s : Stack) (v depth goal : Nat) : Bool × Stack :=
  let (s, slices) := s.popCount v depth
  let (s, last) := slices.foldl
    (fun ((s, last) : Stack × Option Nat) slice =>
      let w := slice.version
      if last = some w then (s, last)
      else if s.state w ≠ goal then (s.halt w, last)
      else
        let (s, error) := s.popError w
        let trees := (error.map (·.children)).getD [] ++ slice.trees
        let (children, extras) := Subtree.splitExtras trees
        let s :=
          if children.isEmpty then s
          else
            let node := Subtree.node table source .error #[] #[] 0 children
            s.push table w (some (node.withExtra true)) goal
        (extras.foldl (fun s t => s.push table w (some t) goal) s, some w))
    (s, none)
  (last.isSome, s)

/-- Goes through the states before the error for one in which the token is welcome. -/
def tryStates (v position progress cost versions : Nat) (lookahead : Subtree) :
    List SummaryEntry → Parse → Bool × Parse
  | [], p => (false, p)
  | e :: rest, p =>
    let s := p.stack
    let taken := (List.range versions).any fun j => s.state j = e.state && s.position j = position
    if e.state = 0 || e.position = position || taken then
      tryStates v position progress cost versions lookahead rest p
    else
      let total := cost + Subtree.skipCost * e.depth + source.bytes e.position position +
        Subtree.rowCost * source.lines e.position position
      let (better, p) := p.hasBetter v total
      if better then (false, p)
      else if (Lookup.actionsOn table e.state lookahead).isEmpty then
        tryStates v position progress cost versions lookahead rest p
      else
        let depth := if 0 < progress then e.depth + 1 else e.depth
        let (done, s) := recoverTo table source p.stack v depth e.state
        let p := { p with stack := s }
        if done then (true, p)
        else tryStates v position progress cost versions lookahead rest p

/-- Removes the versions from `first` on that are not active. -/
def dropInactive (s : Stack) (first : Nat) : Stack :=
  { s with
    heads := s.heads.extract 0 first ++
      (s.heads.extract first s.heads.size).filter (·.status.isActive) }

/-- Skips a token in a version that is in the error state. -/
def skipToken (s : Stack) (v progress : Nat) (lookahead : Subtree) : Stack :=
  let one := Subtree.node table source .skipped #[] #[] 0 [lookahead]
  let (node, s) :=
    if 0 < progress then
      let (s, slices) := s.popCount v 1
      match slices with
      | [] => (one, s)
      | x :: rest =>
        let s :=
          if rest.isEmpty then s else { s with heads := s.heads.extract 0 (x.version + 1) }
        (Subtree.node table source .skipped #[] #[] 0 (x.trees ++ [one]), s.renumber x.version v)
    else (one, s)
  let s := s.push table v (some node) 0
  match lookahead.info.scanner with
  | some marks => s.modifyHead v fun h => { h with scanner := some marks }
  | none => s

/-- Recovers a version in the error state: back to an earlier state, or over the token. -/
def recover (p : Parse) (v : Nat) (lookahead : Subtree) : Parse :=
  let versions := p.stack.versions
  let position := p.stack.position v
  let summary := (p.stack.head v).summary
  let (progress, s) := p.stack.progress v
  let cost := s.cost v
  let p := { p with stack := s }
  let (recovered, p) :=
    if lookahead.isError then (false, p)
    else
      tryStates table source v position progress cost versions lookahead
        ((summary.map (·.toList)).getD []) p
  let p := { p with stack := dropInactive p.stack versions }
  if lookahead.isEnd then
    let node := Subtree.node table source .error #[] #[] position []
    accept table source { p with stack := p.stack.push table v (some node) 1 } v lookahead
  else if recovered && (maxVersions < p.stack.versions || lookahead.info.scannerChanged) then
    { p with stack := p.stack.halt v }
  else
    let i := lookahead.info
    let total := cost + Subtree.skipCost + source.bytes i.before i.stop +
      Subtree.rowCost * source.lines i.before i.stop
    let (better, p) := p.hasBetter v total
    if better then { p with stack := p.stack.halt v }
    else { p with stack := skipToken table source p.stack v progress lookahead }

/-- Guesses a missing token after which a version can use the lookahead. -/
def guess (v position : Nat) (lookahead : Subtree) : List Nat → Stack → Bool × Stack
  | [], s => (false, s)
  | token :: rest, s =>
    let state := s.state v
    let after := Lookup.next table state token
    if after = 0 || after = state || !Lookup.reducesOn table after lookahead then
      guess v position lookahead rest s
    else
      match lookahead.kind with
      | .symbol symbol =>
        let (w, s) := s.copy v
        let leaf := Subtree.leaf (.symbol token) position position position
        let leaf := Subtree.mk { leaf.info with missing := true } []
        let s := s.push table w (some leaf) after
        let (done, s) := s.reduceAll table source w symbol
        if done then (true, s) else guess v position lookahead rest s
      | _ => guess v position lookahead rest s

/-- Guesses a token for the first of some versions that allows it, and marks the error in all. -/
def markErrors (position : Nat) (lookahead : Subtree) :
    List Nat → (guessed : Bool) → Stack → Stack
  | [], _, s => s
  | v :: rest, guessed, s =>
    let (found, s) :=
      if guessed then (true, s) else guess table source v position lookahead table.guesses s
    markErrors position lookahead rest found (s.push table v none 0)

/-- Takes a version that cannot use a token into the error state. -/
def handleError (p : Parse) (v : Nat) (lookahead : Subtree) : Parse :=
  let previous := p.stack.versions
  let (_, s) := p.stack.reduceAll table source v Productions.endSymbol
  let count := s.versions
  let position := s.position v
  let added := (List.range (count - previous)).map (previous + ·)
  let s := markErrors table source position lookahead (v :: added) false s
  let s := added.foldl (fun (s : Stack) _ => (s.merge table v previous).getD s) s
  recover table source { p with stack := s.recordSummary v } v lookahead

end Parse

end PubSweep.Parsing
