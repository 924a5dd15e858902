import PubSweep.Grammar.Productions

/-!
Sets of tokens as bit masks, and the tokens with which each symbol may open and close.

Bit `s` of a mask stands for symbol `s`.  No rule but the first derives the empty text, so the
first symbol of a production alone decides how it opens.
-/

namespace PubSweep.Grammar

/-- The mask of one symbol. -/
def maskOf (s : Nat) : Nat := 1 <<< s

/-- The symbols below `bound` that are in a mask, in increasing order. -/
def maskMembers (bound mask : Nat) : List Nat :=
  (List.range bound).filter mask.testBit

/-- Repeats a step until it changes nothing. -/
def stabilise {α : Type} [BEq α] (step : α → α) : (fuel : Nat) → α → α
  | 0, x => x
  | fuel + 1, x =>
    let y := step x
    if y == x then x else stabilise step fuel y

namespace Productions

variable (g : Productions)

/-- The mask of a symbol, given the masks of the rules. -/
def edgeMask (masks : Array Nat) (s : Nat) : Nat :=
  if g.isVariable s then masks.getD (s - g.firstVariable) 0 else maskOf s

/-- Adds to each rule the edge symbols that `pick` chooses from its productions. -/
def growEdges (pick : List Step → Option Step) (masks : Array Nat) : Array Nat :=
  g.allVariables.mapIdx fun i v =>
    v.productions.foldl
      (fun acc p =>
        match pick p with
        | some s => acc ||| g.edgeMask masks s.symbol
        | none => acc)
      (masks.getD i 0)

/-- For each rule, the tokens that may open it. -/
def firstSets : Array Nat :=
  stabilise (g.growEdges List.head?) (g.allVariables.size + 1)
    (Array.replicate g.allVariables.size 0)

/-- For each rule, the tokens that may close it. -/
def lastSets : Array Nat :=
  stabilise (g.growEdges List.getLast?) (g.allVariables.size + 1)
    (Array.replicate g.allVariables.size 0)

end Productions

end PubSweep.Grammar
