import Mathlib.Data.List.Forall2
import PubSweep.Proofs.Apply
import PubSweep.Proofs.Visibility.FileParser

/-!
A batch gives each document all of its edits or none, and touches nothing else.

`settles_settled` is the statement for one document.  `applyBatch_atomic` is the one for a project,
with the two lists that tell of it: the changes and the failures.
-/

namespace PubSweep

open Syntax

/-- What a batch leaves in the place of a document: the very same document if there are no edits
for it, if they cannot be applied, or if the text they give is the old one, and else a new document
with that text. -/
structure Settles (parser : Parser) (batch : FixBatch) (before after : Document) : Prop where
  id : after.id = before.id
  path : after.path = before.path
  noEdits : batch.editsFor before.id = [] → after = before
  failed : ∀ e, applyDocument parser before (batch.editsFor before.id) = .error e → after = before
  sameText : ∀ new, applyDocument parser before (batch.editsFor before.id) = .ok new →
    new.text = before.text → after = before
  newText : ∀ new, applyDocument parser before (batch.editsFor before.id) = .ok new →
    new.text ≠ before.text → after.tree = new.tree ∧ before.isShared after = false

section

variable {parser : Parser} {batch : FixBatch} {d : Document}

/-- Applied edits keep the identity and the path of a document. -/
theorem applyDocument_eq_ok {edits : List Edit} {new : Document}
    (h : applyDocument parser d edits = .ok new) : ∃ tree, new = d.withTree tree := by
  simp only [applyDocument] at h
  split at h
  · cases h
  · split at h
    · cases h
    · split at h
      · cases h
      · cases h
        exact ⟨_, rfl⟩

theorem changed?_of_error {e : ApplyError}
    (h : applyDocument parser d (batch.editsFor d.id) = .error e) :
    (editOutcome parser batch d).changed? = none := by
  simp only [EditOutcome.changed?, editOutcome, h]

theorem changed?_of_ok {new : Document}
    (h : applyDocument parser d (batch.editsFor d.id) = .ok new) :
    (editOutcome parser batch d).changed? = if new.text = d.text then none else some new := by
  simp only [EditOutcome.changed?, editOutcome, h]

theorem settled_of_changed?_eq_none (h : (editOutcome parser batch d).changed? = none) :
    settled parser batch d = d := by
  rw [settled, h]

theorem settled_of_changed?_eq_some {new : Document}
    (h : (editOutcome parser batch d).changed? = some new) :
    settled parser batch d = { new with revision := d.revision + 1 } := by
  rw [settled, h]

/-- A document is replaced by one with another text, or not at all. -/
theorem changed?_eq_some {new : Document}
    (h : (editOutcome parser batch d).changed? = some new) :
    new.text ≠ d.text ∧ ∃ tree, new = d.withTree tree := by
  cases hresult : applyDocument parser d (batch.editsFor d.id) with
  | error e =>
      rw [changed?_of_error hresult] at h
      cases h
  | ok result =>
      rw [changed?_of_ok hresult] at h
      split at h
      · cases h
      · cases h
        exact ⟨‹_›, applyDocument_eq_ok hresult⟩

theorem id_settled (parser : Parser) (batch : FixBatch) (d : Document) :
    (settled parser batch d).id = d.id := by
  cases hchanged : (editOutcome parser batch d).changed? with
  | none => rw [settled_of_changed?_eq_none hchanged]
  | some new =>
      obtain ⟨-, tree, rfl⟩ := changed?_eq_some hchanged
      rw [settled_of_changed?_eq_some hchanged]
      rfl

theorem path_settled (parser : Parser) (batch : FixBatch) (d : Document) :
    (settled parser batch d).path = d.path := by
  cases hchanged : (editOutcome parser batch d).changed? with
  | none => rw [settled_of_changed?_eq_none hchanged]
  | some new =>
      obtain ⟨-, tree, rfl⟩ := changed?_eq_some hchanged
      rw [settled_of_changed?_eq_some hchanged]
      rfl

theorem settles_settled (parser : Parser) (batch : FixBatch) (d : Document) :
    Settles parser batch d (settled parser batch d) where
  id := id_settled parser batch d
  path := path_settled parser batch d
  noEdits hnil := by
    have hok : applyDocument parser d (batch.editsFor d.id) = .ok d := by
      rw [hnil, applyDocument_nil]
    exact settled_of_changed?_eq_none (by rw [changed?_of_ok hok, if_pos rfl])
  failed e herror := settled_of_changed?_eq_none (changed?_of_error herror)
  sameText new hok htext :=
    settled_of_changed?_eq_none (by rw [changed?_of_ok hok, if_pos htext])
  newText new hok htext := by
    have hchanged : (editOutcome parser batch d).changed? = some new := by
      rw [changed?_of_ok hok, if_neg htext]
    rw [settled_of_changed?_eq_some hchanged]
    exact ⟨rfl, by simp [Document.isShared]⟩

/-- The text in the place of a document is the one that its edits give, or the old one. -/
theorem Settles.text_eq {after : Document} (h : Settles parser batch d after) :
    after.text =
      (applyDocument parser d (batch.editsFor d.id)).toOption.elim d.text Document.text := by
  cases hresult : applyDocument parser d (batch.editsFor d.id) with
  | error e =>
      rw [h.failed e hresult]
      rfl
  | ok new =>
      by_cases htext : new.text = d.text
      · rw [h.sameText new hresult htext]
        exact htext.symm
      · rw [Document.text, (h.newText new hresult htext).1]
        rfl

/-- The change that the report tells of a document and the one in its place. -/
def changeBetween (batch : FixBatch) (before after : Document) : Option DocumentChange :=
  if before.text = after.text then none
  else
    some
      { path := before.path.text
        edits := (batch.editsFor before.id).length
        sha256Before := Digest.Sha256.hexDigest (Text.bytesOf before.text.toList)
        sha256After := Digest.Sha256.hexDigest (Text.bytesOf after.text.toList) }

theorem change?_editOutcome (parser : Parser) (batch : FixBatch) (d : Document) :
    (editOutcome parser batch d).change? = changeBetween batch d (settled parser batch d) := by
  cases hchanged : (editOutcome parser batch d).changed? with
  | none =>
      rw [settled_of_changed?_eq_none hchanged, EditOutcome.change?, hchanged, changeBetween,
        if_pos rfl]
      rfl
  | some new =>
      have htext : d.text ≠ new.text := Ne.symm (changed?_eq_some hchanged).1
      rw [settled_of_changed?_eq_some hchanged, EditOutcome.change?, hchanged, changeBetween]
      exact (if_neg htext).symm

/-- The failure that the report tells of a document whose edits cannot be applied. -/
def failureOf (parser : Parser) (batch : FixBatch) (project : String) (d : Document) :
    Option Failure :=
  match applyDocument parser d (batch.editsFor d.id) with
  | .ok _ => none
  | .error e =>
    some
      { project
        path := d.path.text
        kind := e.failureKind
        message := e.message
        line := e.position.map (·.line)
        column := e.position.map (·.column) }

theorem failure?_editOutcome (parser : Parser) (batch : FixBatch) (project : String)
    (d : Document) :
    (editOutcome parser batch d).failure? project = failureOf parser batch project d := by
  cases hresult : applyDocument parser d (batch.editsFor d.id) <;>
    simp [EditOutcome.failure?, editOutcome, failureOf, Failure.ofDocument, hresult]

/-- Batches that hold the same edits for a document leave the same in its place. -/
theorem editOutcome_congr {other : FixBatch} (h : other.editsFor d.id = batch.editsFor d.id) :
    editOutcome parser other d = editOutcome parser batch d := by
  rw [editOutcome, editOutcome, h]

end

/-- A batch that is not interrupted gives every document of a project all of its edits or none.
The changes are the documents whose text is another one, and the failures those whose edits cannot
be applied, both in the order of the project.  Edits for documents outside the project make no
difference: any batch with the same edits for the documents of the project does the same. -/
theorem applyBatch_atomic (parser : Parser) (project : Project)
    (hids : (project.documents.map Document.id).Nodup) (batch : FixBatch) :
    ∃ applied, applyBatch parser project batch (fun _ => false) = some applied ∧
      applied.project.name = project.name ∧ applied.project.root = project.root ∧
      List.Forall₂ (Settles parser batch) project.documents applied.project.documents ∧
      applied.changes = (project.documents.zip applied.project.documents).filterMap
        (fun (before, after) => changeBetween batch before after) ∧
      applied.failures = project.documents.filterMap (failureOf parser batch project.name) ∧
      ∀ other : FixBatch,
        (∀ d ∈ project.documents, other.editsFor d.id = batch.editsFor d.id) →
          applyBatch parser project other (fun _ => false) = some applied := by
  refine ⟨_, applyBatch_eq parser batch hids, rfl, rfl, ?_, ?_, ?_, ?_⟩
  · rw [List.forall₂_map_right_iff, List.forall₂_same]
    exact fun d _ => settles_settled parser batch d
  · simp only [List.zip, List.zipWith_map_right, List.zipWith_self, List.filterMap_map]
    exact List.filterMap_congr fun d _ => change?_editOutcome parser batch d
  · apply List.filterMap_congr
    intro d _
    cases hresult : applyDocument parser d (batch.editsFor d.id) <;>
      simp [EditOutcome.failure?, editOutcome, failureOf, Failure.ofDocument, hresult]
  · intro other hother
    have hsame := fun d hd => @editOutcome_congr parser batch d other (hother d hd)
    have hdocuments : project.documents.map (settled parser other) =
        project.documents.map (settled parser batch) := by
      apply List.map_congr_left
      intro d hd
      rw [settled, settled, hsame d hd]
    have hchanges : (project.documents.filterMap fun d => (editOutcome parser other d).change?) =
        project.documents.filterMap fun d => (editOutcome parser batch d).change? :=
      List.filterMap_congr fun d hd => by rw [hsame d hd]
    have hfailures : (project.documents.filterMap fun d =>
        (editOutcome parser other d).failure? project.name) =
          project.documents.filterMap fun d =>
            (editOutcome parser batch d).failure? project.name :=
      List.filterMap_congr fun d hd => by rw [hsame d hd]
    rw [applyBatch_eq parser other hids, hdocuments, hchanges, hfailures]

/-- A file with one item that lacks its visibility. -/
def structDocument (id : BitVec 128) (path : String) : Document :=
  ⟨⟨id⟩, ⟨path⟩, Visibility.structParser.tree "struct A;", 0⟩

/-- Three files with the same text. -/
def tripleProject : Project :=
  ⟨"demo", ⟨"/demo"⟩, [structDocument 1 "a.rs", structDocument 2 "b.rs", structDocument 3 "c.rs"]⟩

/-- A batch of three edits: one that fits the first file, one that lies behind the end of the
second, and one for a file elsewhere. -/
def tripleBatch : FixBatch :=
  (⟨.missingVisibility, .makePub, []⟩ : FixBatch).acceptAll
    ([(1, 0), (2, 50), (4, 0)].map fun (id, offset) =>
      { (default : Edit) with
        document := ⟨id⟩, span := .empty offset, replacement := "pub ", fix := .makePub })

theorem applyBatch_atomic_triple :
    (tripleProject.documents.map Document.id).Nodup ∧
      ∃ applied, applyBatch Visibility.structParser tripleProject tripleBatch (fun _ => false) =
          some applied ∧
        applied.project.documents.map Document.text =
          ["pub struct A;", "struct A;", "struct A;"] ∧
        applied.changes =
          [{ path := "a.rs"
             edits := 1
             sha256Before := "fd1c6c8269a190f800851a29da756f5638db2d8c29561cae475a36181a562714"
             sha256After := "29124c31393737708604d695f0300b693d832bc25a2fe272ec8e6ac9c9cc24b4" }] ∧
        applied.failures.map Failure.message =
          ["span 50..50 is out of bounds for text of length 9"] := by
  have hids : (tripleProject.documents.map Document.id).Nodup := by decide +kernel
  obtain ⟨applied, happlied, -, -, hdocs, hchanges, hfailures, -⟩ :=
    applyBatch_atomic Visibility.structParser tripleProject hids tripleBatch
  refine ⟨hids, applied, happlied, ?_⟩
  generalize applied.project.documents = documents at hdocs hchanges ⊢
  rcases hdocs with _ | ⟨ha, _ | ⟨hb, _ | ⟨hc, _ | _⟩⟩⟩
  have hfirst := ha.text_eq.trans (show _ = "pub struct A;" by decide +kernel)
  have hsecond := hb.text_eq.trans (show _ = "struct A;" by decide +kernel)
  have hthird := hc.text_eq.trans (show _ = "struct A;" by decide +kernel)
  refine ⟨by simp only [List.map_cons, List.map_nil, hfirst, hsecond, hthird], ?_, ?_⟩
  · have hold : ∀ id path, (structDocument id path).text = "struct A;" := fun _ _ => rfl
    have hpath : ∀ id path, (structDocument id path).path.text = path := fun _ _ => rfl
    have hedits : (tripleBatch.editsFor (structDocument 1 "a.rs").id).length = 1 := by
      decide +kernel
    have hbefore : Digest.Sha256.hexDigest (Text.bytesOf "struct A;".toList) =
        "fd1c6c8269a190f800851a29da756f5638db2d8c29561cae475a36181a562714" := by
      decide +kernel
    have hafter : Digest.Sha256.hexDigest (Text.bytesOf "pub struct A;".toList) =
        "29124c31393737708604d695f0300b693d832bc25a2fe272ec8e6ac9c9cc24b4" := by
      decide +kernel
    simp only [hchanges, tripleProject, changeBetween, hold, hpath, hfirst, hsecond, hthird, hedits,
      hbefore, hafter, List.zip_cons_cons, List.zip_nil_right, List.filterMap_cons,
      List.filterMap_nil, if_true, String.reduceEq, if_false]
  · rw [hfailures]
    decide +kernel

end PubSweep
