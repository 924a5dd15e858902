import PubSweep.Rule
import PubSweep.Visibility.Item

/-!
Edits that give an item its visibility.

The visibility goes in front of the item, behind its attributes and before words such as `unsafe`.
-/

namespace PubSweep.Visibility

open Syntax

/-- The edit that puts the visibility of a fix in front of the item of a finding. -/
def propose (fix : FixId) (document : Document) (finding : Finding) : Except FixError Edit :=
  let notFound : Except FixError Edit := .error (.nodeNotFound finding.path finding.span)
  if finding.document ≠ document.id then notFound
  else
    match itemAtKeyword document.tree finding.span with
    | none => notFound
    | some (item, kind) =>
      if kind ≠ finding.item || hasVisibility item then notFound
      else .ok (.ofFinding (.empty item.span.start) (fix.token ++ " ") fix finding)

/-- The proposer of a fix. -/
def proposer (fix : FixId) : Proposer where
  fix := fix
  propose := propose fix

/-- The proposers of all fixes. -/
def proposers : List Proposer := FixId.all.map proposer

end PubSweep.Visibility
