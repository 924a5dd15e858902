import PubSweep.Rule
import PubSweep.Visibility.Item

/-!
The rule that items of a module have a visibility.
-/

namespace PubSweep.Visibility

open Syntax

/-- The finding for the item under a cursor, if the item is of a checked kind, stands in a module
and has no visibility. -/
def check (kinds : List ItemKind) (document : Document) (c : Cursor) : Option Finding :=
  match ItemKind.ofNodeKind c.node.kind with
  | none => none
  | some kind =>
    if !kinds.contains kind || hasVisibility c.node || !isModuleScope c.ancestors then none
    else
      match keywordSpan c.node kind with
      | none => none
      | some span =>
        some
          { rule := .missingVisibility
            document := document.id
            path := document.path
            span
            position := document.tree.position span.start
            item := kind
            name := itemName document.tree c.node }

/-- The findings of a document in the order of its text. -/
def findings (kinds : List ItemKind) (document : Document) : List Finding :=
  document.tree.walk.filterMap (check kinds document)

/-- The findings of a document without syntax errors. -/
def evaluate (kinds : List ItemKind) (document : Document) : Except RuleError (List Finding) :=
  match document.tree.firstError with
  | some position => .error (.malformedTree document.path position)
  | none => .ok (findings kinds document)

/-- The rule for some kinds of items. -/
def rule (kinds : List ItemKind) : Rule where
  id := .missingVisibility
  evaluate := evaluate kinds

end PubSweep.Visibility
