import PubSweep.Grammar.Merge

/-!
Parse tables: what to do in each state on each token, and which tokens to look for there.
-/

namespace PubSweep.Grammar

/-- How to build a node from the subtrees on the stack. -/
structure Reduction where
  symbol : Nat
  count : Nat
  /-- The label of each child that has one here. -/
  labels : Array (Option Label)
  /-- The field of each child that has one here. -/
  fields : Array (Option String)
deriving Inhabited, BEq

/-- One thing to do on a token. -/
inductive Action where
  | shift (state : Nat) (repeats : Bool)
  | reduce (r : Reduction)
  | accept
  | recover
deriving Inhabited

/-- How the node of a symbol is shown. -/
structure SymbolInfo where
  name : String
  visible : Bool
  named : Bool
deriving Inhabited, Repr

/-- The tokens to look for in a state: the positions that open them, and whether the end of the text
is one of them. -/
structure TokenChoice where
  start : List Nat
  atEnd : Bool
deriving Inhabited

/-- A table for parsing. -/
structure Table where
  grammar : Productions
  automaton : TokenAutomaton
  symbols : Array SymbolInfo
  /-- By state and token. -/
  actions : Array (Array (List Action))
  /-- By state and rule; `0` where there is none. -/
  gotos : Array (Array Nat)
  choices : Array TokenChoice
  /-- By state: the tokens to look for, none in a state that ends a comment. -/
  choiceOf : Array (Option Nat)
  /-- By state: the mask of the scanned tokens that are valid. -/
  scannedIn : Array Nat
  /-- The symbol of each keyword. -/
  keywords : Std.HashMap String Nat
  /-- The tokens in the order in which a missing one is guessed. -/
  guesses : List Nat
deriving Inhabited

/-! ## The error state -/

/-- For each token, the tokens that are valid together with it in some state. -/
def coincident (g : Productions) (states : Array ParseState) : Array Nat :=
  let masks := states.foldl
    (fun (acc : Std.HashMap Nat Unit) s => acc.insertIfNew s.row.valid ()) {}
  masks.fold
    (fun acc mask _ => foldMask g.firstScanned mask (fun acc s => acc.modify s (· ||| mask)) acc)
    (Array.replicate g.firstScanned 0)

/-- The tokens to look for while recovering: all but those that compete with a token that has no
rival of its own. -/
def recoveryTokens (g : Productions) (t : TokenConflicts) (together : Array Nat) : Nat :=
  let all := maskRange 1 g.firstScanned
  let apart (s mask : Nat) : Nat := mask ^^^ (mask &&& together.getD s 0)
  let free := foldMask g.firstScanned all
    (fun acc s => if apart s (t.outgrows.getD s 0) = 0 then acc ||| maskOf s else acc) 0
  let kept := foldMask g.firstScanned all
    (fun acc s =>
      if free.testBit s || t.keywords.testBit s || s = g.word ||
          apart s (t.conflicts.getD s 0) &&& free = 0 then acc ||| maskOf s
      else acc) 0
  kept ||| maskRange g.firstScanned g.commentEnd ||| maskOf Productions.endSymbol

/-! ## Tokens to look for -/

/-- Tokens that may be looked for together, and the tokens that must not join them. -/
structure ChoiceGroup where
  tokens : Nat
  barred : Nat
deriving Inhabited

/-- Adds tokens to the first group that they fit, or to a group of their own. -/
def joinGroup (bars : Nat → Nat) (tokens : Nat) (groups : Array ChoiceGroup) :
    Nat × Array ChoiceGroup :=
  let mine := bars tokens
  let fits (c : ChoiceGroup) : Bool :=
    (tokens ^^^ (tokens &&& c.tokens)) &&& c.barred = 0 &&
      (c.tokens ^^^ (tokens &&& c.tokens)) &&& mine = 0
  match groups.findIdx? fits with
  | some i =>
    (i, groups.modify i fun c => ⟨c.tokens ||| tokens, c.barred ||| mine⟩)
  | none => (groups.size, groups.push ⟨tokens, mine⟩)

/-- For each token, the tokens with which it must not be looked for unless some state needs both. -/
def choiceBars (g : Productions) (t : TokenConflicts) (together : Array Nat) : Array Nat :=
  let overlapped := converse g.firstScanned t.overlaps
  let bad := (Array.range g.firstScanned).map fun s =>
    let o := t.overlaps.getD s 0 ||| overlapped.getD s 0
    t.conflicts.getD s 0 ||| t.shortens.getD s 0 ||| (o ^^^ (o &&& together.getD s 0))
  converse g.firstScanned bad

/-! ## The table -/

/-- How the nodes of all symbols are shown. -/
def symbolInfos (g : Productions) (usual : Array (Option Label)) : Array SymbolInfo :=
  (Array.range (g.firstVariable + g.allVariables.size)).map fun s =>
    match usual.getD s none with
    | some l => ⟨l.name, true, l.named⟩
    | none =>
      let ofPresence (name : String) (p : Presence) : SymbolInfo :=
        ⟨name, p == .named || p == .anonymous, p == .named⟩
      if s = Productions.endSymbol then ⟨"end", false, true⟩
      else if g.isPattern s then
        let t := g.tokens.getD (s - 1) default
        ofPresence t.name t.presence
      else if g.isScanned s then
        let name := g.scanned.getD (s - g.firstScanned) ""
        ofPresence name (if name.startsWith "_" then .hidden else .named)
      else if g.isVariable s then
        let v := g.variableOf s
        ofPresence v.name v.presence
      else ⟨"", false, false⟩

/-- How to reduce by a finished item. -/
def reductionOf (i : Item) : Reduction where
  symbol := i.head
  count := i.dot
  labels := i.steps.map (·.label)
  fields := i.steps.map (·.field)

/-- The actions of a state, by token; what ends a comment is kept at the end symbol. -/
def actionsOf (g : Productions) (c : Cores) (commentStates : List (Nat × Nat)) (s : ParseState) :
    Array (List Action) :=
  let core := c.cores.getD s.core default
  let reduceBy (n : Nat) : Action :=
    let i := c.items.item n
    if i.head = Productions.endSymbol then .accept else .reduce (reductionOf i)
  let row := s.row.reductions.foldl
    (fun acc (mask, items) =>
      let actions := items.map reduceBy
      foldMask (g.commentEnd + 1) mask
        (fun acc t => acc.set! (if t = g.commentEnd then Productions.endSymbol else t) actions) acc)
    (Array.replicate g.commentEnd [])
  let shiftOn (acc : Array (List Action)) (t target : Nat) : Array (List Action) :=
    acc.modify t (· ++ [.shift target (s.row.repeats.testBit t)])
  let own := (core.shifts.zip s.targets).foldl
    (fun acc (x, target) =>
      if g.isVariable x.symbol || !s.row.shifts.testBit x.symbol then acc
      else shiftOn acc x.symbol target)
    row
  commentStates.foldl
    (fun acc (t, target) =>
      if s.row.shifts.testBit t && (acc.getD t []).isEmpty then shiftOn acc t target else acc)
    own

/-- Where a state leads by rule; a comment leaves the state as it is. -/
def gotosOf (g : Productions) (c : Cores) (self : Nat) (s : ParseState) : Array Nat :=
  let core := c.cores.getD s.core default
  let endsComment := s.row.reduces.testBit g.commentEnd
  let own := (core.shifts.zip s.targets).foldl
    (fun acc (x, target) =>
      if g.isVariable x.symbol then acc.set! (x.symbol - g.firstVariable) target else acc)
    (Array.replicate g.allVariables.size 0)
  if endsComment then own
  else g.comments.foldl (fun acc v => acc.set! (v - g.firstVariable) self) own

/-- The number of symbols on which a state does something. -/
def sizeOfState (g : Productions) (c : Cores) (s : ParseState) : Nat :=
  let core := c.cores.getD s.core default
  let endsComment := s.row.reduces.testBit g.commentEnd
  (maskMembers (g.commentEnd + 1) s.row.valid).length +
    (core.shifts.filter fun x => g.isVariable x.symbol).size +
    (if endsComment then 0 else g.comments.length)

/-- States in order of their size, the largest first, with states `0` and `1` in front. -/
def reorder (g : Productions) (c : Cores) (states : Array ParseState) : Array ParseState :=
  let sized := (Array.range (states.size - 2)).toList.map fun i =>
    (i + 2, sizeOfState g c (states.getD (i + 2) default))
  let order := [0, 1] ++ (sized.mergeSort fun a b => b.2 ≤ a.2).map (·.1)
  let place := (order.zipIdx).foldl (fun (acc : Array Nat) (old, new) => acc.set! old new)
    (Array.replicate states.size 0)
  order.toArray.map fun old =>
    let s := states.getD old default
    { s with targets := s.targets.map fun t => place.getD t 0 }

/-- The parse table of a grammar. -/
def RuleSet.table (grammar : RuleSet) : Table :=
  let numbered := grammar.toProductions
  let usual := numbered.usualLabels
  let g := numbered.dropUsualLabels
  let automaton := TokenAutomaton.ofTokens g.tokens
  let conflicts := g.tokenConflicts automaton
  let c := g.buildAllCores
  let states := g.buildStates c
  let together := coincident g states
  let recovery := recoveryTokens g conflicts together
  let ctx := MergeContext.of g conflicts c.cores states
  let merged := reorder g c ctx.merged
  let commentStates := c.comments.map fun (token, core) =>
    (token, (merged.findIdx? (·.core == core)).getD 0)
  let errorRow := (Array.range g.commentEnd).map fun t =>
    match commentStates.lookup t with
    | some state => [Action.shift state false]
    | none => if recovery.testBit t then [Action.recover] else []
  let bars := choiceBars g conflicts together
  let patterns := maskRange 1 g.firstScanned
  let barsOf (tokens : Nat) : Nat := unionOver g.firstScanned bars (tokens &&& patterns)
  let lookedFor (valid : Nat) : Nat :=
    let tokens := valid &&& maskRange 0 g.firstScanned
    let words := tokens &&& conflicts.keywords
    if words = 0 then tokens else (tokens ^^^ words) ||| maskOf g.word
  let (choiceOf, groups) := merged.foldl
    (fun ((acc, groups) : Array (Option Nat) × Array ChoiceGroup) s =>
      let valid := if acc.isEmpty then recovery else s.row.valid
      let (i, groups) := joinGroup barsOf (lookedFor valid) groups
      (acc.push (if s.row.reduces.testBit g.commentEnd then none else some i), groups))
    (#[], #[])
  { grammar := g, automaton
    symbols := symbolInfos g usual
    actions := (merged.map (actionsOf g c commentStates)).set! 0 errorRow
    gotos := merged.mapIdx (gotosOf g c)
    choices := groups.map fun x =>
      ⟨automaton.startOf (maskMembers g.firstScanned (x.tokens &&& patterns)),
        x.tokens.testBit Productions.endSymbol⟩
    choiceOf
    scannedIn := (merged.map fun s => s.row.valid &&& maskRange g.firstScanned g.commentEnd).set! 0
      (maskRange g.firstScanned g.commentEnd)
    keywords := foldMask g.firstScanned conflicts.keywords
      (fun acc s => acc.insert (g.tokens.getD (s - 1) default).lexeme.name s) {}
    guesses := g.word :: ((List.range g.commentEnd).filter fun s => s != 0 && s != g.word) }

end PubSweep.Grammar
