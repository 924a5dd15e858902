import PubSweep.Finding

/-!
Edits, and batches of edits that serve one fix.
-/

namespace PubSweep

/-- A change of one document that settles a finding. -/
structure Edit where
  id : Uuid
  document : DocumentId
  /-- In the text that was checked. -/
  span : Span
  replacement : String
  fix : FixId
  finding : Finding
deriving DecidableEq, Inhabited

namespace Edit

/-- The namespace of edit identities. -/
def space : Uuid := ⟨0x3f9e0a6c21774e908b52d40f6a13e845#128⟩

/-- The identity of an edit, from its document, span and fix. -/
def idOf (document : DocumentId) (span : Span) (fix : FixId) : Uuid :=
  Uuid.ofName space
    (Text.bytesOf (document.render ++ "|" ++ span.render ++ "|" ++ fix.name).toList)

/-- The edit for a finding; it belongs to the document of the finding. -/
def ofFinding (span : Span) (replacement : String) (fix : FixId) (finding : Finding) : Edit where
  id := idOf finding.document span fix
  document := finding.document
  span := span
  replacement := replacement
  fix := fix
  finding := finding

/-- What an edit does, in words. -/
def title (e : Edit) : String := e.fix.title

end Edit

/-- The edits of one fix, by document.  Documents are in the order of their identities, and each has
at least one edit. -/
structure FixBatch where
  rule : RuleId
  fix : FixId
  groups : List (DocumentId × List Edit) := []
deriving Inhabited

namespace FixBatch

/-- Adds an edit to the group of its document, behind the edits already there. -/
def insert (edit : Edit) : List (DocumentId × List Edit) → List (DocumentId × List Edit)
  | [] => [(edit.document, [edit])]
  | (id, edits) :: groups =>
    match edit.document.compare id with
    | .lt => (edit.document, [edit]) :: (id, edits) :: groups
    | .eq => (id, edits ++ [edit]) :: groups
    | .gt => (id, edits) :: insert edit groups

variable (b : FixBatch)

/-- Takes an edit in if it serves the fix of the batch.  Tells whether it does. -/
def accept (edit : Edit) : Bool × FixBatch :=
  if edit.fix = b.fix then (true, { b with groups := insert edit b.groups }) else (false, b)

/-- The edits of a document, in the order in which they were taken in. -/
def editsFor (id : DocumentId) : List Edit := (b.groups.lookup id).getD []

/-- The documents with edits, in the order of their identities. -/
def documents : List DocumentId := b.groups.map (·.1)

/-- The number of documents with edits. -/
def documentCount : Nat := b.groups.length

/-- The number of edits. -/
def size : Nat := b.groups.foldr (fun g n => g.2.length + n) 0

/-- Whether there are no edits. -/
def isEmpty : Bool := b.groups.isEmpty

end FixBatch

end PubSweep
