import PubSweep.Collection
import PubSweep.Digest.Sha256

/-!
Edits applied to documents.

A document gets all of its edits or none.  Edits are made from the end of the text to its start, so
no edit moves the place of one that is still to come.
-/

namespace PubSweep

open Syntax

/-- Why the edits of a document cannot be applied. -/
inductive ApplyError where
  /-- Two edits collide. -/
  | overlappingEdits (first second : Span)
  /-- The text had no syntax errors before, and has some after. -/
  | syntaxBroken (position : Option Position)
  /-- An edit does not fit the text. -/
  | badSpan (error : Text.SpanError)
deriving DecidableEq

namespace ApplyError

/-- The words for an error. -/
def message : ApplyError → String
  | overlappingEdits first second =>
    "edits at " ++ first.render ++ " and " ++ second.render ++ " overlap"
  | syntaxBroken _ => "edited document no longer parses"
  | badSpan e => e.message

/-- The kind of failure that an error is. -/
def failureKind : ApplyError → FailureKind
  | overlappingEdits .. => .overlappingEdits
  | syntaxBroken _ => .syntaxBroken
  | badSpan _ => .nodeNotFound

/-- Where the error is, if that is known. -/
def position : ApplyError → Option Position
  | syntaxBroken position => position
  | _ => none

end ApplyError

/-- Edits in the order in which they are made: later places first, and of those that start at one
place the longer first. -/
def Edit.lastFirst (edits : List Edit) : List Edit :=
  edits.mergeSort fun a b => (b.span.compare a.span).isLE

/-- The first two neighbours that overlap, the earlier place first. -/
def findOverlap : List Edit → Option (Span × Span)
  | later :: earlier :: rest =>
    if later.span.overlaps earlier.span then some (earlier.span, later.span)
    else findOverlap (earlier :: rest)
  | _ => none

/-- Makes edits one after the other. -/
def replaceAll (parser : Parser) : List Edit → SyntaxTree → Except Text.SpanError SyntaxTree
  | [], tree => .ok tree
  | e :: es, tree =>
    match tree.replace parser e.span e.replacement with
    | .ok tree => replaceAll parser es tree
    | .error err => .error err

/-- The document with all edits made. -/
def applyDocument (parser : Parser) (document : Document) (edits : List Edit) :
    Except ApplyError Document :=
  let ordered := Edit.lastFirst edits
  match findOverlap ordered with
  | some (first, second) => .error (.overlappingEdits first second)
  | none =>
    match replaceAll parser ordered document.tree with
    | .error e => .error (.badSpan e)
    | .ok tree =>
      if !document.tree.hasErrors && tree.hasErrors then .error (.syntaxBroken tree.firstError)
      else .ok (document.withTree tree)

/-- The digest of a text. -/
def textDigest (text : String) : String := Digest.Sha256.hexDigest (Text.bytesOf text.toList)

/-- What a batch did to a project. -/
structure Applied where
  project : Project
  /-- The documents whose text changed, in the order of the project. -/
  changes : List DocumentChange
  failures : List Failure
deriving Inhabited

/-- What became of a document with edits. -/
structure EditOutcome where
  document : Document
  edits : Nat
  result : Except ApplyError Document

namespace EditOutcome

/-- The new document, if its text is another one. -/
def changed? (o : EditOutcome) : Option Document :=
  match o.result with
  | .ok new => if new.text = o.document.text then none else some new
  | .error _ => none

/-- The change for the report. -/
def change? (o : EditOutcome) : Option DocumentChange :=
  o.changed?.map fun new =>
    { path := o.document.path.text
      edits := o.edits
      sha256Before := textDigest o.document.text
      sha256After := textDigest new.text }

/-- The failure for the report. -/
def failure? (project : String) (o : EditOutcome) : Option Failure :=
  match o.result with
  | .ok _ => none
  | .error e => some (.ofDocument project o.document.path e.failureKind e.message e.position)

end EditOutcome

/-- Puts together what became of the documents with edits. -/
def Applied.ofOutcomes (project : Project) (outcomes : List EditOutcome) : Applied where
  project := project.replace
    (outcomes.reverse.filterMap fun o => o.changed?.map fun new => (o.document.id, new))
  changes := outcomes.filterMap EditOutcome.change?
  failures := outcomes.filterMap (EditOutcome.failure? project.name)

/-- Applies the edits of a batch to the documents of a project.  Documents without edits, and those
whose edits fail or change nothing, stay the same.  `interrupted` tells before which documents the
pass is found cancelled; only documents with edits are asked about. -/
def applyBatch (parser : Parser) (project : Project) (batch : FixBatch)
    (interrupted : Nat → Bool) : Option Applied :=
  let targets := project.documents.zipIdx.filter fun (d, _) => !(batch.editsFor d.id).isEmpty
  if targets.any fun (_, i) => interrupted i then none
  else
    some <| .ofOutcomes project <| targets.map fun (d, _) =>
      let edits := batch.editsFor d.id
      ⟨d, edits.length, applyDocument parser d edits⟩

end PubSweep
