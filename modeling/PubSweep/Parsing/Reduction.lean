import PubSweep.Parsing.Lexer

/-!
Reductions on all versions of the stack, and the acceptance of finished trees.
-/

namespace PubSweep.Parsing

open Grammar

/-- At most this many versions go on. -/
def maxVersions : Nat := 6

/-- While reducing, this many more versions are kept. -/
def versionOverflow : Nat := 4

/-- A parse under way. -/
structure Parse where
  stack : Stack
  /-- The best tree so far. -/
  finished : Option Subtree := none
  /-- How many trees were finished. -/
  accepted : Nat := 0
deriving Inhabited

namespace Stack

variable (table : Table) (source : Source)

/-- The node built by a reduction. -/
def build (r : Reduction) (position : Nat) (children : List Subtree) : Subtree :=
  Subtree.node table source (.symbol r.symbol) r.labels r.fields position children

/-- The best node among several lists of children, with the extras behind them. -/
def bestNode (r : Reduction) (position : Nat) (first : List Subtree)
    (others : List (List Subtree)) : Subtree × List Subtree :=
  others.foldl
    (fun (best : Subtree × List Subtree) trees =>
      let (children, extras) := Subtree.splitExtras trees
      let candidate := build table source r position children
      if Subtree.isWorse table best.1 candidate then (candidate, extras) else best)
    (let (children, extras) := Subtree.splitExtras first
     (build table source r position children, extras))

/-- Merges a version into the first earlier one that it can join, `except` apart. -/
def mergeDown (s : Stack) (v except : Nat) : Option Stack :=
  (List.range v).findSome? fun j => if j = except then none else s.merge table j v

/-- Groups slices that belong to one version. -/
def groupSlices (slices : List Slice) : List (Nat × List (List Subtree)) :=
  slices.foldr
    (fun x groups =>
      match groups with
      | (v, trees) :: rest =>
        if v = x.version then (v, x.trees :: trees) :: rest else (x.version, [x.trees]) :: groups
      | [] => [(x.version, [x.trees])])
    []

/-- Reduces a version along every path.  Each path that ends elsewhere gets a new version; the
first of these is returned. -/
def reduce (s : Stack) (v : Nat) (r : Reduction) (endsComment : Bool) : Option Nat × Stack :=
  let initial := s.versions
  let (s, slices) := s.popCount v r.count
  let halted := (s.heads.filter (·.status.isHalted)).size
  let (s, _) := (groupSlices slices).foldl
    (fun ((s, removed) : Stack × Nat) (version, paths) =>
      let w := version - removed
      if maxVersions + versionOverflow + halted < w then (s.remove w, removed + 1)
      else
        let (node, extras) := bestNode table source r (s.position w) (paths.headD []) paths.tail
        let state := s.state w
        let target := Lookup.next table state r.symbol
        let node := if endsComment && target = state then node.withExtra true else node
        let s := s.push table w (some node) target
        let s := extras.foldl (fun s t => s.push table w (some t) target) s
        match s.mergeDown table w v with
        | some s => (s, removed + 1)
        | none => (s, removed))
    (s, 0)
  (if initial < s.versions then some initial else none, s)

/-- Adds a reduction to a list unless one with the same symbol and count is there. -/
def addReduction (rs : List Reduction) (r : Reduction) : List Reduction :=
  if rs.any fun x => x.symbol == r.symbol && x.count == r.count then rs else rs ++ [r]

/-- The reductions of a state on some tokens, and whether it can shift one of them. -/
def reductionsOn (state : Nat) (tokens : List Nat) : List Reduction × Bool :=
  tokens.foldl
    (fun acc t =>
      (Lookup.actions table state t).foldl
        (fun ((rs, shifts) : List Reduction × Bool) a =>
          match a with
          | .shift _ repeats => (rs, shifts || !repeats)
          | .recover => (rs, true)
          | .reduce r => (if 0 < r.count then addReduction rs r else rs, shifts)
          | .accept => (rs, shifts))
        acc)
    ([], false)

/-- Does all reductions from version `v` on that a token allows; `0` stands for any token.  Tells
whether some version can then shift the token. -/
def reduceAllFrom (start token initial : Nat) :
    (fuel round v : Nat) → (canShift : Bool) → Stack → Bool × Stack
  | 0, _, _, canShift, s => (canShift, s)
  | fuel + 1, round, v, canShift, s =>
    let count := s.versions
    if count ≤ v then (canShift, s)
    else
      let merged := (List.range v).findSome? fun j =>
        if initial ≤ j then s.merge table j v else none
      match merged with
      | some s => reduceAllFrom start token initial fuel (round + 1) v canShift s
      | none =>
        let tokens := if token = Productions.endSymbol then table.guesses else [token]
        let (reductions, shifts) := reductionsOn table (s.state v) tokens
        let (reduced, s) := reductions.foldl
          (fun ((_, s) : Option Nat × Stack) r => s.reduce table source v r false) (none, s)
        let next (s : Stack) (canShift : Bool) : Bool × Stack :=
          reduceAllFrom start token initial fuel (round + 1)
            (if v = start then count else v + 1) canShift s
        if shifts then next s true
        else
          match reduced with
          | some w =>
            if round < maxVersions then
              reduceAllFrom start token initial fuel (round + 1) v canShift (s.renumber w v)
            else next (if token ≠ Productions.endSymbol then s.remove v else s) canShift
          | none => next (if token ≠ Productions.endSymbol then s.remove v else s) canShift

/-- Does all reductions of a version that a token allows; `0` stands for any token.  Tells whether
some version can then shift the token. -/
def reduceAll (s : Stack) (v token : Nat) : Bool × Stack :=
  reduceAllFrom table source v token s.versions (s.nodes.size + 1000) 0 v false s

end Stack

namespace Parse

variable (table : Table) (source : Source)

/-- The root over the subtrees of a finished version: the last one that is no extra takes in all
the others. -/
def rootOf (trees : List Subtree) : Option Subtree :=
  let after := trees.reverse.takeWhile (·.info.extra)
  match trees.reverse.drop after.length with
  | [] => none
  | t :: before =>
    some (Subtree.node table source t.kind t.info.labels t.info.fields t.info.before
      (before.reverse ++ t.children ++ after.reverse))

/-- Ends a version that has reached the end of the text. -/
def accept (p : Parse) (v : Nat) (lookahead : Subtree) : Parse :=
  let s := p.stack.push table v (some lookahead) 1
  let (s, slices) := s.popAll v
  let p := slices.foldl
    (fun (p : Parse) slice =>
      match rootOf table source slice.trees with
      | none => p
      | some root =>
        let best :=
          match p.finished with
          | none => root
          | some old => if Subtree.isWorse table old root then root else old
        { p with finished := some best, accepted := p.accepted + 1 })
    p
  let s :=
    match slices with
    | [] => s
    | x :: _ => s.remove x.version
  { p with stack := s.halt v }

end Parse

end PubSweep.Parsing
