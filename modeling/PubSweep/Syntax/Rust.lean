import PubSweep.Grammar.Rust
import PubSweep.Parsing.Run
import PubSweep.Syntax.Tree

/-!
The parser of Rust texts.
-/

namespace PubSweep.Syntax

open Grammar Parsing

/-- What the node of a subtree shows. -/
def infoOf (table : Table) (source : Source) (label : Option Label) (field : Option String)
    (i : SubtreeInfo) : NodeInfo :=
  let shown : SymbolInfo :=
    match label, i.kind with
    | some l, _ => ⟨l.name, true, l.named⟩
    | none, .symbol s => table.symbols.getD s default
    | none, _ => ⟨"ERROR", true, true⟩
  { kind := shown.name
    isNamed := shown.named
    span := ⟨source.offset i.start, source.offset i.stop⟩
    isError := i.kind == .error
    isMissing := i.missing
    field }

mutual
/-- The node of a subtree. -/
def nodeOf (table : Table) (source : Source) (label : Option Label) (field : Option String) :
    Subtree → Node
  | .mk i cs => .mk (infoOf table source label field i) (nodesOf table source i none 0 cs [])

/-- The nodes of the parts of a subtree, in front of the nodes `rest`.  The parts of a part that is
not shown take its place, and its field. -/
def nodesOf (table : Table) (source : Source) (parent : SubtreeInfo) (outer : Option String)
    (place : Nat) : List Subtree → (rest : List Node) → List Node
  | [], rest => rest
  | .mk i ds :: cs, rest =>
    let label := if i.extra then none else parent.labels.getD place none
    let field := if i.extra then none else outer.or (parent.fields.getD place none)
    let later := nodesOf table source parent outer (if i.extra then place else place + 1) cs rest
    if label.isSome || (Subtree.mk i []).isVisible table then
      nodeOf table source label field (.mk i ds) :: later
    else nodesOf table source i field 0 ds later
end

/-- The parser of a table. -/
def Parser.ofTable (table : Table) : Parser :=
  .ofParse fun text =>
    let source := Source.ofString text
    let t := parseSubtree table source
    ⟨nodeOf table source none none t, 0 < t.cost⟩

/-- The parser of Rust texts. -/
def Parser.rust : Parser := .ofTable Grammar.rust.table

end PubSweep.Syntax
