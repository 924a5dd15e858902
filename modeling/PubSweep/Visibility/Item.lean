import PubSweep.Finding

/-!
Items in a syntax tree: where they stand, and whether they have a visibility.
-/

namespace PubSweep.Visibility

open Syntax

/-- Whether an item below these nodes, the nearest first, stands directly in a file or in the body
of a module. -/
def isModuleScope : (ancestors : List Node) → Bool
  | [] => false
  | parent :: above =>
    parent.kind == "source_file" ||
      (parent.kind == "declaration_list" && (above.head?).any (·.kind == "mod_item"))

/-- Whether an item has a visibility. -/
def hasVisibility (item : Node) : Bool := item.children.any (·.kind == "visibility_modifier")

/-- The keyword that introduces an item. -/
def keyword? (item : Node) (kind : ItemKind) : Option Node :=
  item.children.find? fun c => !c.isNamed && c.kind == kind.keyword

/-- The span of the keyword that introduces an item. -/
def keywordSpan (item : Node) (kind : ItemKind) : Option Span := (keyword? item kind).map (·.span)

/-- The name of an item. -/
def itemName (tree : SyntaxTree) (item : Node) : Option String :=
  (item.childInField "name").map tree.nodeText

/-- The item that a keyword introduces, among the nodes around the keyword. -/
def itemAtKeyword (tree : SyntaxTree) (keyword : Span) : Option (Node × ItemKind) :=
  (tree.covering keyword).findSome? fun n =>
    match ItemKind.ofNodeKind n.kind with
    | some kind => if keywordSpan n kind = some keyword then some (n, kind) else none
    | none => none

end PubSweep.Visibility
