import PubSweep.Grammar.Rule

/-!
A grammar as numbered symbols and flat productions.

Symbol `0` is the end of the text.  Then come the tokens in the order in which the rules mention
them, the scanned tokens, a mark for the end of a comment, and the rules.  Repetition is a rule of
its own that either joins two shorter repetitions or is one copy.
-/

namespace PubSweep.Grammar

/-- What a symbol leaves in the tree. -/
inductive Presence where
  /-- A node with a kind of its own. -/
  | named
  /-- A node whose kind is the token's text. -/
  | anonymous
  /-- No node. -/
  | hidden
  /-- No node; the symbol was made for a repetition or an unnamed pattern. -/
  | auxiliary
deriving Repr, DecidableEq, Inhabited

/-- A token of the grammar, the name it goes by, and how often the rules mention it. -/
structure Token where
  lexeme : Lexeme
  name : String
  presence : Presence
  uses : Nat
deriving Inhabited

/-- One symbol of a production. -/
structure Step where
  symbol : Nat
  precedence : Int := 0
  grouping : Option Grouping := none
  label : Option Label := none
  field : Option String := none
deriving DecidableEq, Inhabited

/-- A rule of the flat grammar. -/
structure Variable where
  name : String
  presence : Presence
  productions : List (List Step)
deriving Inhabited

/-- A grammar with numbered symbols and flat productions. -/
structure Productions where
  tokens : Array Token
  scanned : Array String
  allVariables : Array Variable
  word : Nat
  comments : List Nat
  families : List Nat
  inlined : List Nat
deriving Inhabited

namespace Productions

/-- The symbol of the end of the text. -/
def endSymbol : Nat := 0

variable (g : Productions)

/-- The first scanned token. -/
def firstScanned : Nat := g.tokens.size + 1

/-- The mark for the end of a comment. -/
def commentEnd : Nat := g.tokens.size + g.scanned.size + 1

/-- The symbol of the first rule. -/
def firstVariable : Nat := g.commentEnd + 1

/-- Whether a symbol is a token that a pattern describes. -/
def isPattern (s : Nat) : Bool := 1 ≤ s && s ≤ g.tokens.size

/-- Whether a symbol is a scanned token. -/
def isScanned (s : Nat) : Bool := g.firstScanned ≤ s && s < g.commentEnd

/-- Whether a symbol is a rule. -/
def isVariable (s : Nat) : Bool := g.firstVariable ≤ s

/-- The rule of a symbol. -/
def variableOf (s : Nat) : Variable := g.allVariables.getD (s - g.firstVariable) default

end Productions

/-! ## Tokens -/

private def presenceOf (name : String) : Presence :=
  if name.startsWith "_" then .hidden else .named

/-- Adds the tokens that a rule mentions, counting each mention. -/
def Rule.collectTokens : Rule → Array Token → Array Token
  | .blank, acc => acc
  | .ref _, acc => acc
  | .token t, acc =>
    match acc.findIdx? (fun x => x.lexeme.same t) with
    | some i => acc.modify i fun x => { x with uses := x.uses + 1 }
    | none => acc.push ⟨t, t.name, if t.isLiteral then .anonymous else .auxiliary, 1⟩
  | .seq a b, acc => b.collectTokens (a.collectTokens acc)
  | .choice a b, acc => b.collectTokens (a.collectTokens acc)
  | .many1 a, acc => a.collectTokens acc
  | .ranked _ _ a, acc => a.collectTokens acc
  | .field _ a, acc => a.collectTokens acc
  | .shown _ a, acc => a.collectTokens acc

/-! ## Bodies: rules over symbols -/

/-- The right-hand side of a rule with symbols in place of names. -/
inductive Body where
  | blank
  | symbol (s : Nat)
  | seq (a b : Body)
  | choice (a b : Body)
  | many1 (a : Body)
  | ranked (precedence : Int) (grouping : Option Grouping) (a : Body)
  | field (name : String) (a : Body)
  | shown (label : Label) (a : Body)
deriving DecidableEq, Inhabited

/-- Replaces names and tokens by symbols. -/
def Rule.toBody (ofName : String → Nat) (ofToken : Lexeme → Nat) : Rule → Body
  | .blank => .blank
  | .ref n => .symbol (ofName n)
  | .token t => .symbol (ofToken t)
  | .seq a b => .seq (a.toBody ofName ofToken) (b.toBody ofName ofToken)
  | .choice a b => .choice (a.toBody ofName ofToken) (b.toBody ofName ofToken)
  | .many1 a => .many1 (a.toBody ofName ofToken)
  | .ranked p g a => .ranked p g (a.toBody ofName ofToken)
  | .field n a => .field n (a.toBody ofName ofToken)
  | .shown l a => .shown l (a.toBody ofName ofToken)

/-- The repetitions found so far: the repeated part of each, in the order of their symbols. -/
structure Repetitions where
  first : Nat
  parts : Array Body

/-- Replaces each repetition by its symbol; equal repetitions share one. -/
def Body.nameRepetitions : Body → Repetitions → Body × Repetitions
  | .blank, r => (.blank, r)
  | .symbol s, r => (.symbol s, r)
  | .seq a b, r =>
    let (a, r) := a.nameRepetitions r
    let (b, r) := b.nameRepetitions r
    (.seq a b, r)
  | .choice a b, r =>
    let (a, r) := a.nameRepetitions r
    let (b, r) := b.nameRepetitions r
    (.choice a b, r)
  | .many1 a, r =>
    let (a, r) := a.nameRepetitions r
    match r.parts.findIdx? (· == a) with
    | some i => (.symbol (r.first + i), r)
    | none => (.symbol (r.first + r.parts.size), { r with parts := r.parts.push a })
  | .ranked p g a, r =>
    let (a, r) := a.nameRepetitions r
    (.ranked p g a, r)
  | .field n a, r =>
    let (a, r) := a.nameRepetitions r
    (.field n a, r)
  | .shown l a, r =>
    let (a, r) := a.nameRepetitions r
    (.shown l a, r)

/-- The annotations that hold for the steps of a part. -/
structure StepContext where
  precedence : Int := 0
  grouping : Option Grouping := none
  label : Option Label := none
  field : Option String := none

/-- Changes the last step of a sequence. -/
def mapLast (f : Step → Step) : List Step → List Step
  | [] => []
  | [s] => [f s]
  | s :: rest => s :: mapLast f rest

/-- All step sequences of a body.  A precedence that ends before its production does not cover the
last step of its part. -/
def Body.flatten (ctx : StepContext) (atEnd : Bool) : Body → List (List Step)
  | .blank => [[]]
  | .symbol s => [[⟨s, ctx.precedence, ctx.grouping, ctx.label, ctx.field⟩]]
  | .seq a b =>
    let as := a.flatten ctx false
    let bs := b.flatten ctx atEnd
    as.flatMap fun x => bs.map fun y => x ++ y
  | .choice a b => a.flatten ctx atEnd ++ b.flatten ctx atEnd
  | .many1 a => a.flatten ctx atEnd
  | .ranked p g a =>
    let inner := { ctx with precedence := p, grouping := g.or ctx.grouping }
    let restore (s : Step) : Step :=
      { s with
        precedence := ctx.precedence
        grouping := if g.isSome then ctx.grouping else s.grouping }
    let alternatives := a.flatten inner atEnd
    if atEnd then alternatives else alternatives.map (mapLast restore)
  | .field n a => a.flatten { ctx with field := some n } atEnd
  | .shown l a => a.flatten { ctx with label := some l } atEnd

/-- The distinct productions of a body. -/
def Body.productions (b : Body) : List (List Step) :=
  (b.flatten {} true).foldl (fun acc p => if acc.contains p then acc else acc ++ [p]) []

/-! ## Numbering a grammar -/

/-- Numbers the symbols of a grammar and flattens its rules.  A rule that is nothing but one token
of its own gives its name to that token. -/
def RuleSet.toProductions (g : RuleSet) : Productions :=
  let found := g.rules.foldl (fun acc r => r.2.collectTokens acc) #[]
  let ownToken (r : Rule) : Option Nat :=
    match r with
    | .token t => found.findIdx? fun x => x.lexeme.same t && x.uses == 1
    | _ => none
  let tokens := g.rules.foldl (fun acc (name, r) =>
    match ownToken r with
    | some i => acc.modify i fun x => { x with name, presence := presenceOf name }
    | none => acc) found
  let owned := g.rules.filterMap fun (name, r) => (ownToken r).map fun i => (name, i + 1)
  let rules := g.rules.filter fun r => (ownToken r.2).isNone
  let scanned := g.scanned.toArray
  let firstVariable := tokens.size + scanned.size + 2
  let ofName (name : String) : Nat :=
    match owned.lookup name with
    | some s => s
    | none =>
      match rules.findIdx? (fun r => r.1 == name) with
      | some i => firstVariable + i
      | none => tokens.size + 1 + scanned.findIdx (· == name)
  let ofToken (t : Lexeme) : Nat := 1 + tokens.findIdx (fun x => x.lexeme.same t)
  let (bodies, repetitions) := rules.foldl
    (fun (acc : Array (String × Body) × Repetitions) (name, r) =>
      let (body, reps) := (r.toBody ofName ofToken).nameRepetitions acc.2
      (acc.1.push (name, body), reps))
    (#[], ⟨firstVariable + rules.length, #[]⟩)
  let own := bodies.map fun (name, body) => ⟨name, presenceOf name, body.productions⟩
  let repeated := repetitions.parts.mapIdx fun i part =>
    let self := Body.symbol (repetitions.first + i)
    ⟨"", .auxiliary, (Body.choice (.seq self self) part).productions⟩
  { tokens, scanned
    allVariables := own ++ repeated
    word := ofName g.word
    comments := g.comments.map ofName
    families := g.families.map ofName
    inlined := g.inlined.map ofName }

/-! ## Usual labels -/

/-- How often each label is given to a symbol, and whether the symbol also stands unlabelled. -/
structure LabelCount where
  counts : List (Label × Nat) := []
  plain : Bool := false
deriving Inhabited

/-- Counts one more use of a symbol under an optional label. -/
def LabelCount.add (c : LabelCount) : Option Label → LabelCount
  | none => { c with plain := true }
  | some l =>
    if c.counts.any (·.1 == l) then
      { c with counts := c.counts.map fun (x, n) => if x == l then (x, n + 1) else (x, n) }
    else { c with counts := c.counts ++ [(l, 1)] }

/-- The label given most often to a symbol that never stands unlabelled, the earliest of equals. -/
def LabelCount.usual (c : LabelCount) : Option Label :=
  if c.plain then none
  else
    (c.counts.foldl
      (fun (best : Option (Label × Nat)) x =>
        match best with
        | none => some x
        | some b => if b.2 < x.2 then some x else some b)
      none).map (·.1)

/-- The usual label of each symbol that never stands unlabelled. -/
def Productions.usualLabels (g : Productions) : Array (Option Label) :=
  let size := g.firstVariable + g.allVariables.size
  let counts := g.allVariables.foldl
    (fun acc v => v.productions.foldl
      (fun acc p => p.foldl
        (fun acc s =>
          if g.inlined.contains s.symbol then acc
          else acc.modify s.symbol (·.add s.label)) acc) acc)
    (Array.replicate size ({} : LabelCount))
  let counts := g.comments.foldl (fun acc s => acc.modify s (·.add none)) counts
  counts.map LabelCount.usual

/-- The grammar without the labels that are usual for their symbols. -/
def Productions.dropUsualLabels (g : Productions) : Productions :=
  let usual := g.usualLabels
  let drop (s : Step) : Step :=
    if s.label.isSome && s.label == usual.getD s.symbol none then { s with label := none } else s
  { g with allVariables := g.allVariables.map fun v =>
      { v with productions := v.productions.map (·.map drop) } }

end PubSweep.Grammar
