import PubSweep.Grammar.FirstSets
import PubSweep.Grammar.TokenAutomaton

/-!
How tokens compete for the same text.

Two tokens are walked through together; wherever one is complete and the other goes on, or both
are complete, that is recorded.  The relations are kept as one mask of symbols for each symbol.
-/

namespace PubSweep.Grammar

/-- How one token competes with another. -/
structure Rivalry where
  /-- Goes on where the other is complete. -/
  continues : Bool := false
  /-- Goes on, where the other is complete, with a character that may follow the other. -/
  continuesFollower : Bool := false
  /-- May be complete where white space is still admitted. -/
  takesSpace : Bool := false
  /-- Is complete and preferred where the other could go on. -/
  stopsShort : Bool := false
  /-- Is preferred on a text that both match. -/
  winsSame : Bool := false
deriving Inhabited

/-- What is recorded for two tokens. -/
structure RivalPair where
  left : Rivalry := {}
  right : Rivalry := {}
deriving Inhabited

namespace TokenAutomaton

variable (a : TokenAutomaton)

/-- Records one more fact about one token of a pair. -/
def RivalPair.note (r : RivalPair) (isLeft : Bool) (f : Rivalry → Rivalry) : RivalPair :=
  if isLeft then { r with left := f r.left } else { r with right := f r.right }

/-- The tokens completed at a set of positions. -/
def completions (set : List Nat) : List Completion :=
  set.filterMap fun i =>
    let p := a.position i
    if p.isDone then some ⟨p.token, p.precedence⟩ else none

/-- Records the completions at a set of positions, and says which one is preferred. -/
def noteCompletions (x : Nat) (hasSpace : Bool) (set : List Nat) (r : RivalPair) :
    RivalPair × Option Completion :=
  (a.completions set).foldl
    (fun (r, best) c =>
      let r := if hasSpace then RivalPair.note r (c.token == x) fun v =>
          { v with takesSpace := true } else r
      match best with
      | none => (r, some c)
      | some b =>
        let winner := if a.prefers b c then b else c
        (RivalPair.note r (winner.token == x) fun v => { v with winsSame := true }, some winner))
    (r, none)

/-- Records a move past a completed token to the other token alone. -/
def noteMove (x y : Nat) (followers : Nat → Array Bool) (hasSpace : Bool) (done : Completion)
    (m : Move) (c : Nat) (r : RivalPair) : RivalPair :=
  if a.mentions m.set done.token then r
  else
    let other := if done.token == x then y else x
    if a.goesOn m done hasSpace then
      RivalPair.note r (other == x) fun v =>
        { v with
          continues := true
          continuesFollower := v.continuesFollower || (followers done.token).getD c false }
    else RivalPair.note r (done.token == x) fun v => { v with stopsShort := true }

/-- Whether all positions of a set belong to one token. -/
def onlyOne (set : List Nat) : Bool :=
  match set with
  | [] => true
  | i :: rest => rest.all fun j => (a.position j).token == (a.position i).token

/-- Walks through two tokens together over all sets of positions that they can reach. -/
def walkPair (x y : Nat) (followers : Nat → Array Bool) :
    (fuel : Nat) → (queue visited : List (List Nat)) → RivalPair → RivalPair
  | 0, _, _, r => r
  | _, [], _, r => r
  | fuel + 1, set :: queue, visited, r =>
    if a.onlyOne set then walkPair x y followers fuel queue visited r
    else
      let hasSpace := a.hasSpace set
      let (r, done) := a.noteCompletions x hasSpace set r
      let (queue, visited, r) := (List.range classCount).foldl
        (fun (queue, visited, r) c =>
          match a.move set c with
          | none => (queue, visited, r)
          | some m =>
            let r :=
              match done with
              | some d => a.noteMove x y followers hasSpace d m c r
              | none => r
            if visited.contains m.set then (queue, visited, r)
            else (m.set :: queue, m.set :: visited, r))
        (queue, visited, r)
      walkPair x y followers fuel queue visited r

/-- How two different tokens compete. -/
def compareTokens (followers : Nat → Array Bool) (x y : Nat) : RivalPair :=
  a.walkPair x y followers 10000 [a.startOf [x, y]] [] {}

end TokenAutomaton

/-- The relations between tokens, each as a mask of symbols for every symbol. -/
structure TokenConflicts where
  /-- Tokens that a token may take text from. -/
  conflicts : Array Nat
  /-- Tokens with which a token competes in any way. -/
  overlaps : Array Nat
  /-- Tokens that a token cuts short. -/
  shortens : Array Nat
  /-- Tokens than which a token may match a longer or shorter text. -/
  outgrows : Array Nat
  /-- The literal tokens that spell an identifier. -/
  keywords : Nat
deriving Inhabited

namespace Productions

variable (g : Productions)

/-- For each token, the mask of the tokens that may come directly after it. -/
def followingTokens : Array Nat :=
  let firsts := g.firstSets
  let lasts := g.lastSets
  let addPair (acc : Array Nat) (l r : Step) : Array Nat :=
    let right := g.edgeMask firsts r.symbol
    (maskMembers g.firstScanned (g.edgeMask lasts l.symbol)).foldl
      (fun acc s => acc.modify s (· ||| right)) acc
  g.allVariables.foldl
    (fun acc v => v.productions.foldl
      (fun acc p => (p.zip p.tail).foldl (fun acc (l, r) => addPair acc l r) acc) acc)
    (Array.replicate g.firstScanned 0)

/-- The character classes with which a token may open, white space included. -/
def startClasses (a : TokenAutomaton) (s : Nat) : Array Bool :=
  let set := a.starts.getD s []
  Array.ofFn fun c : Fin classCount => (a.move set c.val).isSome

/-- For each token, the character classes that may come directly after it. -/
def followingClasses (a : TokenAutomaton) : Array (Array Bool) :=
  let starts := (Array.range g.firstScanned).map (startClasses a)
  g.followingTokens.map fun mask =>
    (maskMembers g.firstScanned mask).foldl
      (fun acc s => acc.zipWith (· || ·) (starts.getD s #[])) (Array.replicate classCount false)

/-- Whether a token is a literal that the identifier pattern matches to its end. -/
def isKeyword (a : TokenAutomaton) (s : Nat) : Bool :=
  match g.tokens[s - 1]? with
  | none => false
  | some t =>
    let classes := (t.lexeme.name.toList.map classOf).toArray
    t.lexeme.isLiteral && !t.lexeme.immediate && 1 ≤ s &&
      match (a.scan (a.startOf [g.word]) false classes 0).found with
      | some m => m.start == 0 && m.stop == classes.size
      | none => false

/-- The relations between all tokens. -/
def tokenConflicts (a : TokenAutomaton) : TokenConflicts :=
  let n := g.firstScanned
  let following := g.followingClasses a
  let followers := fun s => following.getD s #[]
  let blank : TokenConflicts :=
    ⟨.replicate n 0, .replicate n 0, .replicate n 0, .replicate n 0, 0⟩
  let record (t : TokenConflicts) (x y : Nat) (v w : Rivalry) : TokenConflicts :=
    let add (on : Bool) (masks : Array Nat) : Array Nat :=
      if on then masks.modify x (· ||| maskOf y) else masks
    { t with
      conflicts := add (v.continuesFollower || v.takesSpace || v.winsSame) t.conflicts
      overlaps := add (v.takesSpace || v.stopsShort || v.winsSame || v.continues) t.overlaps
      shortens := add v.stopsShort t.shortens
      outgrows := add ((v.continuesFollower || v.takesSpace) && !w.takesSpace) t.outgrows }
  let t := (List.range n).foldl
    (fun t x => (List.range x).foldl
      (fun t y =>
        if y == 0 then t
        else
          let r := a.compareTokens followers x y
          record (record t x y r.left r.right) y x r.right r.left) t)
    blank
  { t with keywords :=
      (List.range n).foldl (fun acc s => if g.isKeyword a s then acc ||| maskOf s else acc) 0 }

end Productions

end PubSweep.Grammar
