import Std.Data.HashMap
import PubSweep.Grammar.FirstSets

/-!
Items: productions with a dot, numbered.

Two items that can only continue alike are one item: of the steps before the dot only the labels
and fields count, which decide how the finished node looks.
-/

namespace PubSweep.Grammar

/-- A production of a rule with a dot before one of its steps.  The rule of the start item is the
end symbol. -/
structure Item where
  head : Nat
  steps : Array Step
  dot : Nat
  /-- A step before the dot may hand fields of its own to the finished node. -/
  inherits : Bool
deriving Inhabited

/-- What distinguishes an item from others. -/
structure ItemKey where
  head : Nat
  dot : Nat
  precedence : Int
  grouping : Option Grouping
  inherits : Bool
  past : List (Option Label × Option String × Nat)
  rest : List (Nat × Int × Option Grouping × Option Label × Option String)
deriving BEq, Hashable

namespace Item

/-- The step after the dot. -/
def step? (i : Item) : Option Step := i.steps[i.dot]?

/-- The step before the dot. -/
def previous? (i : Item) : Option Step := if i.dot = 0 then none else i.steps[i.dot - 1]?

/-- The precedence of the step before the dot. -/
def precedence (i : Item) : Int := (i.previous?.map (·.precedence)).getD 0

/-- The grouping of the step before the dot. -/
def grouping (i : Item) : Option Grouping := i.previous?.bind (·.grouping)

/-- The key under which an item is numbered. -/
def key (i : Item) : ItemKey where
  head := i.head
  dot := i.dot
  precedence := i.precedence
  grouping := i.grouping
  inherits := i.inherits
  past := (i.steps.toList.take i.dot).map fun s =>
    (s.label, s.field, if i.inherits then s.symbol else 0)
  rest := (i.steps.toList.drop i.dot).map fun s =>
    (s.symbol, s.precedence, s.grouping, s.label, s.field)

end Item

/-- The numbered items. -/
structure ItemTable where
  items : Array Item := #[]
  numbers : Std.HashMap ItemKey Nat := {}
  /-- Items whose dot stands before an inlined rule, by the items that replace them. -/
  expansions : Std.HashMap Nat (List Nat) := {}
  successors : Std.HashMap Nat Nat := {}
deriving Inhabited

namespace ItemTable

/-- The item of a number. -/
def item (t : ItemTable) (n : Nat) : Item := t.items.getD n default

/-- The number of an item, a new one if need be. -/
def number (t : ItemTable) (i : Item) : Nat × ItemTable :=
  let k := i.key
  match t.numbers[k]? with
  | some n => (n, t)
  | none =>
    let n := t.items.size
    (n, { t with items := t.items.push i, numbers := t.numbers.insert k n })

end ItemTable

namespace Productions

variable (g : Productions)

/-- For each rule, whether a node of it hands fields to the node around it. -/
def fieldCarriers : Array Bool :=
  let step (acc : Array Bool) : Array Bool :=
    g.allVariables.map fun v => v.productions.any fun p => p.any fun s =>
      s.field.isSome ||
        (g.isVariable s.symbol && (g.variableOf s.symbol).presence ≠ .named &&
          acc.getD (s.symbol - g.firstVariable) false)
  stabilise step (g.allVariables.size + 1) (Array.replicate g.allVariables.size false)

/-- Puts a production of an inlined rule in place of the step that names the rule. -/
def spliceSteps (i : Item) (s : Step) (production : List Step) : Item :=
  let inner := production.map fun x =>
    { x with
      label := s.label.or x.label
      field := s.field.or x.field }
  let inner := mapLast
    (fun x =>
      { x with
        precedence := if x.precedence = 0 then s.precedence else x.precedence
        grouping := x.grouping.or s.grouping })
    inner
  { i with
    steps := i.steps.take i.dot ++ inner.toArray ++ i.steps.drop (i.dot + 1) }

/-- The items that stand for an item once inlined rules after its dot are replaced. -/
def expandItem : (fuel : Nat) → Nat → ItemTable → List Nat × ItemTable
  | 0, n, t => ([n], t)
  | fuel + 1, n, t =>
    match t.expansions[n]? with
    | some l => (l, t)
    | none =>
      let i := t.item n
      let (l, t) :=
        match i.step? with
        | none => ([n], t)
        | some s =>
          if g.inlined.contains s.symbol then
            (g.variableOf s.symbol).productions.foldl
              (fun (acc, t) p =>
                let (m, t) := t.number (spliceSteps i s p)
                let (l, t) := expandItem fuel m t
                (acc ++ l.filter (!acc.contains ·), t))
              ([], t)
          else ([n], t)
      (l, { t with expansions := t.expansions.insert n l })

/-- The item with its dot moved over the next step. -/
def advanceItem (carriers : Array Bool) (n : Nat) (t : ItemTable) : Nat × ItemTable :=
  match t.successors[n]? with
  | some m => (m, t)
  | none =>
    let i := t.item n
    let carries :=
      match i.step? with
      | some s =>
        g.isVariable s.symbol && (g.variableOf s.symbol).presence ≠ .named &&
          carriers.getD (s.symbol - g.firstVariable) false
      | none => false
    let (m, t) := t.number { i with dot := i.dot + 1, inherits := i.inherits || carries }
    (m, { t with successors := t.successors.insert n m })

/-- An item that a rule after the dot brings into a set, with the tokens that may follow it, and
whether what follows the rule may follow the item too. -/
structure Addition where
  item : Nat
  follow : Nat
  propagates : Bool
deriving Inhabited

/-- How a rule may open another: the tokens that may follow it there, and whether what follows the
other may follow it too. -/
structure Opening where
  follow : Nat := 0
  propagates : Bool := false
deriving Inhabited

/-- Finds how rules open one another, working off a queue of openings. -/
def findOpenings (firsts : Array Nat) :
    (fuel : Nat) → (queue : List (Nat × Opening)) → Array Opening → Array Opening
  | 0, _, found => found
  | _, [], found => found
  | fuel + 1, (v, o) :: queue, found =>
    let old := found.getD v {}
    let grows := if o.propagates then !old.propagates else (old.follow ||| o.follow) != old.follow
    if grows then
      let found := found.set! v
        (if o.propagates then { old with propagates := true }
         else { old with follow := old.follow ||| o.follow })
      let next := (g.allVariables.getD v default).productions.filterMap fun p =>
        match p with
        | [] => none
        | s :: rest =>
          if g.isVariable s.symbol then
            match rest with
            | [] => some (s.symbol - g.firstVariable, o)
            | r :: _ => some (s.symbol - g.firstVariable, ⟨g.edgeMask firsts r.symbol, false⟩)
          else none
      findOpenings firsts fuel (next.reverse ++ queue) found
    else findOpenings firsts fuel queue found

/-- For each rule, the items with the dot in front; none for inlined rules. -/
def openingItems (t : ItemTable) : Array (List Nat) × ItemTable :=
  (List.range g.allVariables.size).foldl
    (fun (acc, t) v =>
      let head := g.firstVariable + v
      if g.inlined.contains head then (acc.push [], t)
      else
        let (l, t) := (g.allVariables.getD v default).productions.foldl
          (fun (l, t) p =>
            let (n, t) := t.number ⟨head, p.toArray, 0, false⟩
            let (m, t) := g.expandItem 10 n t
            (l ++ m, t))
          ([], t)
        (acc.push l, t))
    (#[], t)

/-- The items that a rule after the dot brings into a set. -/
def additionsOf (firsts : Array Nat) (opening : Array (List Nat)) (v : Nat) : Array Addition :=
  let found := g.findOpenings firsts 1000000 [(v, ⟨0, true⟩)]
    (Array.replicate g.allVariables.size {})
  (List.range g.allVariables.size).foldl
    (fun acc w =>
      let o := found.getD w {}
      if o.follow == 0 && !o.propagates then acc
      else (opening.getD w []).foldl (fun acc m => acc.push ⟨m, o.follow, o.propagates⟩) acc)
    #[]

end Productions

end PubSweep.Grammar
