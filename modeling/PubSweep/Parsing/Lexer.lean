import PubSweep.Parsing.Scanner
import PubSweep.Parsing.Stack

/-!
The next token of a version of the stack.

Which tokens are looked for depends on the state.  Where none of them is found, all tokens of the
error state are looked for; where that fails too, characters are skipped until it does not.
-/

namespace PubSweep.Parsing

open Grammar

namespace Lookup

variable (table : Table)

/-- What to do in a state on a token. -/
def actions (state symbol : Nat) : List Action :=
  (table.actions.getD state #[]).getD symbol []

/-- What to do in a state on a subtree that is a token. -/
def actionsOn (state : Nat) (t : Subtree) : List Action :=
  match t.kind with
  | .symbol s => actions table state s
  | _ => []

/-- Where a symbol leads from a state; `0` where it leads nowhere. -/
def next (state symbol : Nat) : Nat :=
  if table.grammar.firstVariable ≤ symbol then
    (table.gotos.getD state #[]).getD (symbol - table.grammar.firstVariable) 0
  else
    match (actions table state symbol).getLast? with
    | some (.shift target _) => target
    | _ => 0

/-- Whether a state starts with a reduction on a token. -/
def reducesOn (state : Nat) (t : Subtree) : Bool :=
  match actionsOn table state t with
  | .reduce _ :: _ => true
  | _ => false

end Lookup

namespace Lexer

variable (table : Table) (source : Source)

/-- The symbol of a token of the scanner. -/
def scannedSymbol (t : ScannedToken) : Nat := table.grammar.firstScanned + t.index

/-- The scanned token at a place, if one is valid in a state. -/
def scanned (state marks i : Nat) : Option Scanned :=
  let valid := table.scannedIn.getD state 0
  if valid = 0 then none
  else Scanner.scan source (fun t => valid.testBit (scannedSymbol table t)) marks i

/-- The token of a pattern at a place, for the tokens looked for in a state. -/
def matched (state i : Nat) : TokenAutomaton.Scan :=
  let i := source.readFrom i
  let choice := table.choices.getD ((table.choiceOf.getD state none).getD 0) default
  table.automaton.scan choice.start choice.atEnd source.classes i

/-- A token of a pattern as a subtree.  The word token becomes a keyword where the state has a use
for it. -/
def ofMatch (state before : Nat) (m : TokenAutomaton.Match) : Subtree :=
  let plain := Subtree.leaf (.symbol m.symbol) before m.start m.stop
  if m.symbol = table.grammar.word then
    match table.keywords[source.slice m.start m.stop]? with
    | none => plain
    | some k =>
      let t := if (Lookup.actions table state k).isEmpty then plain else plain.withSymbol k
      .mk { t.info with keyword := true } t.children
  else plain

/-- A token of the scanner as a subtree. -/
def ofScanned (before : Nat) (scanner : Option Nat) (x : Scanned) : Subtree :=
  let t := Subtree.leaf (.symbol (scannedSymbol table x.token)) before x.start x.stop
  .mk { t.info with scanner := some x.marks, scannerChanged := scanner != some x.marks } []

/-- Looks for a token from place `i` on.  `state` chooses the tokens and `recovering` says that it
is the error state; `skipped` is the text skipped so far. -/
def lexFrom (stack : Stack) (version parseState before : Nat) (scanner : Option Nat) :
    (fuel state i : Nat) → (recovering : Bool) → (skipped : Option (Nat × Nat)) → Subtree
  | 0, _, i, _, skipped =>
    let (start, stop) := skipped.getD (i, i)
    .leaf .error before start stop
  | fuel + 1, state, i, recovering, skipped =>
    let asError (start stop : Nat) : Subtree := .leaf .error before start stop
    let isStuck (x : Scanned) : Bool :=
      x.stop ≤ i && scanner == some x.marks &&
        (recovering || !stack.hasAdvanced version ||
          Lookup.next table parseState (scannedSymbol table x.token) == parseState)
    match (scanned table source state (scanner.getD 0) i).filter (!isStuck ·), skipped with
    | some x, none => ofScanned table before scanner x
    | some _, some (start, stop) => asError start stop
    | none, _ =>
      let scan := matched table source state i
      match scan.found, skipped with
      | some m, none => ofMatch table source parseState before m
      | some _, some (start, stop) => asError start stop
      | none, _ =>
        if !recovering then
          lexFrom stack version parseState before scanner fuel 0 before true none
        else
          let (start, stop) := skipped.getD (scan.start, scan.start)
          if scan.reached ≠ stop then
            lexFrom stack version parseState before scanner fuel state scan.reached true
              (some (start, scan.reached))
          else if scan.reached < source.size then
            lexFrom stack version parseState before scanner fuel state (scan.reached + 1) true
              (some (start, scan.reached + 1))
          else asError start stop

/-- The next token of a version in a state; none in a state that ends a comment. -/
def lex (stack : Stack) (version state : Nat) : Option Subtree :=
  if (table.choiceOf.getD state none).isNone then none
  else
    let before := stack.position version
    some (lexFrom table source stack version state before (stack.head version).scanner
      (2 * (source.size - before) + 4) state before (state = 0) none)

end Lexer

end PubSweep.Parsing
