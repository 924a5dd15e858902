import PubSweep.Parsing.Recovery

/-!
Parsing a text: all versions advance by a token, then those that are not worth it are dropped.
-/

namespace PubSweep.Parsing

open Grammar

namespace Parse

variable (table : Table) (source : Source)

/-- What became of a list of actions. -/
inductive Step where
  /-- The version took the token, or is over. -/
  | done (p : Parse)
  /-- The version was reduced; the new version is given if there is one. -/
  | reduced (p : Parse) (version : Option Nat)
  /-- There was nothing to do. -/
  | stuck (p : Parse)

/-- Takes a token into a version. -/
def shift (p : Parse) (v : Nat) (lookahead : Subtree) (target : Nat) : Parse :=
  let s := p.stack.push table v (some (lookahead.withExtra false)) target
  let s :=
    match lookahead.info.scanner with
    | some marks => s.modifyHead v fun h => { h with scanner := some marks }
    | none => s
  { p with stack := s }

/-- Does a list of actions: all reductions up to the first shift. -/
def perform (v : Nat) (lookahead : Option Subtree) :
    List Action → (reduced : Option (Option Nat)) → Parse → Step
  | [], none, p => .stuck p
  | [], some w, p => .reduced p w
  | .reduce r :: rest, reduced, p =>
    let (w, s) := p.stack.reduce table source v r lookahead.isNone
    perform v lookahead rest (some (w.or reduced.join)) { p with stack := s }
  | .shift target repeats :: rest, reduced, p =>
    if repeats then perform v lookahead rest reduced p
    else
      match lookahead with
      | some t => .done (shift table p v t target)
      | none => .stuck p
  | .accept :: _, _, p =>
    match lookahead with
    | some t => .done (p.accept table source v t)
    | none => .stuck p
  | .recover :: _, _, p =>
    match lookahead with
    | some t => .done (p.recover table source v t)
    | none => .stuck p

/-- Stops a version at a token that it cannot use. -/
def pause (p : Parse) (v : Nat) (lookahead : Subtree) : Parse :=
  let count := (p.stack.top v).count
  { p with
    stack := p.stack.modifyHead v fun h =>
      { h with status := .paused lookahead, countAtError := count } }

/-- Advances a version by a token: reduces until the token is taken, or turns out unusable. -/
def advanceWith (v : Nat) : (fuel : Nat) → (lookahead : Option Subtree) → Parse → Parse
  | 0, _, p => { p with stack := p.stack.halt v }
  | fuel + 1, lookahead, p =>
    let state := p.stack.state v
    let actions :=
      match lookahead with
      | some t => Lookup.actionsOn table state t
      | none => Lookup.actions table state Productions.endSymbol
    match perform table source v lookahead actions none p with
    | .done p => p
    | .reduced p none => { p with stack := p.stack.halt v }
    | .reduced p (some w) =>
      let s := p.stack.renumber w v
      let lookahead := lookahead.or (Lexer.lex table source s v (s.state v))
      advanceWith v fuel lookahead { p with stack := s }
    | .stuck p =>
      match lookahead with
      | none => { p with stack := p.stack.halt v }
      | some t =>
        let word := table.grammar.word
        if t.info.keyword && t.kind != .symbol word &&
            !(Lookup.actions table state word).isEmpty then
          advanceWith v fuel (some (t.withSymbol word)) p
        else if state = 0 then p.recover table source v t
        else p.pause v t

/-- Advances a version by a token. -/
def advance (p : Parse) (v : Nat) : Parse :=
  advanceWith table source v (64 * (p.stack.nodes.size + 64))
    (Lexer.lex table source p.stack v (p.stack.state v)) p

/-- Advances a version until it has got further than the others, or cannot go on. -/
def advanceVersion (v : Nat) : (fuel last : Nat) → Parse → Nat × Parse
  | 0, last, p => (last, p)
  | fuel + 1, last, p =>
    if v < p.stack.versions && (p.stack.head v).status.isActive then
      let p := p.advance table source v
      if p.stack.versions ≤ v then (last, p)
      else
        let position := p.stack.position v
        if last < position || (0 < v && position = last) then (position, p)
        else advanceVersion v fuel last p
    else (last, p)

/-- Advances all versions from `v` on. -/
def advanceAll : (fuel v last : Nat) → Parse → Nat × Parse
  | 0, _, last, p => (last, p)
  | fuel + 1, v, last, p =>
    if v < p.stack.versions then
      let (last, p) := advanceVersion table source v (8 * (source.size + 64)) last p
      advanceAll fuel (v + 1) last p
    else (last, p)

/-- Compares version `i` with the earlier ones from `j` on.  Tells which version to go on with. -/
def condenseAt (status : VersionStatus) : (fuel j i : Nat) → Stack → Nat × Stack
  | 0, _, i, s => (i + 1, s)
  | fuel + 1, j, i, s =>
    if i ≤ j then (i + 1, s)
    else
      let (other, s) := s.statusOf j
      match other.compare status with
      | .takeFirst => (i, s.remove i)
      | .preferFirst | .none =>
        match s.merge table j i with
        | some s => (i, s)
        | none => condenseAt status fuel (j + 1) i s
      | .preferSecond =>
        match s.merge table j i with
        | some s => (i, s)
        | none => condenseAt status fuel (j + 1) i { s with heads := s.heads.swapIfInBounds i j }
      | .takeSecond => condenseAt status fuel j (i - 1) (s.remove j)

/-- Merges, orders and drops versions from `i` on.  Returns the least cost of a version that is not
in error. -/
def condenseFrom : (fuel i : Nat) → (least : Option Nat) → Stack → Option Nat × Stack
  | 0, _, least, s => (least, s)
  | fuel + 1, i, least, s =>
    if s.versions ≤ i then (least, s)
    else if (s.head i).status.isHalted then condenseFrom fuel i least (s.remove i)
    else
      let (status, s) := s.statusOf i
      let least :=
        if status.inError then least
        else some (least.elim status.cost (min · status.cost))
      let (i, s) := condenseAt table status (s.versions + 1) 0 i s
      condenseFrom fuel i least s

/-- Lets the first paused version recover, unless a version before it goes on; drops the others. -/
def resume : (fuel i n : Nat) → (running : Bool) → (least : Option Nat) → Parse →
    Option Nat × Parse
  | 0, _, _, _, least, p => (least, p)
  | fuel + 1, i, n, running, least, p =>
    if n ≤ i then (least, p)
    else
      match (p.stack.head i).status with
      | .paused lookahead =>
        if !running && p.accepted < maxVersions then
          let least := some (p.stack.cost i)
          let s := p.stack.modifyHead i fun h => { h with status := .active }
          let p := handleError table source { p with stack := s } i lookahead
          resume fuel (i + 1) n true least p
        else resume fuel i (n - 1) running least { p with stack := p.stack.remove i }
      | _ => resume fuel (i + 1) n true least p

/-- Merges, orders and drops versions.  Returns the least cost at which a version goes on. -/
def condense (p : Parse) : Option Nat × Parse :=
  let n := p.stack.versions
  let (least, s) := condenseFrom table (n * n + n + 1) 0 none p.stack
  let s := { s with heads := s.heads.extract 0 maxVersions }
  let n := s.versions
  resume table source (n + 1) 0 n false least { p with stack := s }

/-- Parses until the best finished tree is cheaper than all that goes on. -/
def loop : (fuel last : Nat) → Parse → Parse
  | 0, _, p => p
  | fuel + 1, last, p =>
    let (last, p) := advanceAll table source (64 + p.stack.versions) 0 last p
    let (least, p) := p.condense table source
    let settled := p.finished.any fun t => least.all (t.info.innerCost < ·)
    if settled || p.stack.versions = 0 then p
    else loop fuel last p

end Parse

/-- The subtree of a whole text; a parse that finds none makes the text one error. -/
def parseSubtree (table : Table) (source : Source) : Subtree :=
  let p := Parse.loop table source (8 * (source.size + 64)) 0 { stack := .initial }
  p.finished.getD
    (Subtree.node table source .error #[] #[] 0 [.leaf .error 0 0 source.size])

end PubSweep.Parsing
