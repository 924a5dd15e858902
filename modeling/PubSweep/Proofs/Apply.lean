import PubSweep.Apply
import PubSweep.Proofs.Batch
import PubSweep.Proofs.Syntax.Replacement
import PubSweep.Proofs.Text.Insertion

/-!
Batches applied to documents.

`applyBatch_eq` says what a batch does document by document, for documents of different identities.
`Insertions.applyDocument_eq` is about edits that put one token in at several places: they never
collide, always fit, and the text gets the token at all of the places at once.
-/

namespace PubSweep

open Syntax

/-! ### Replacing documents -/

theorem lookup_filter_of_ne {α : Type} {entries : List (DocumentId × α)} {id other : DocumentId}
    (hne : id ≠ other) : (entries.filter (·.1 != other)).lookup id = entries.lookup id := by
  induction entries with
  | nil => rfl
  | cons entry entries ih =>
      obtain ⟨key, value⟩ := entry
      by_cases hkey : key = other
      · subst hkey
        rw [List.filter_cons_of_neg (by simp), ih, lookup_cons_of_ne hne]
      · rw [List.filter_cons_of_pos (by simpa using hkey)]
        by_cases hid : id = key
        · subst hid
          simp
        · rw [lookup_cons_of_ne hid, lookup_cons_of_ne hid, ih]

/-- With identities that are all different, every document is replaced on its own. -/
theorem Project.replaceIn_eq_map {docs : List Document} (hids : (docs.map Document.id).Nodup)
    (replacements : List (DocumentId × Document)) :
    replaceIn docs replacements = docs.map fun d =>
      match replacements.lookup d.id with
      | some new => { new with revision := d.revision + 1 }
      | none => d := by
  induction docs generalizing replacements with
  | nil => rfl
  | cons d docs ih =>
      rw [List.map_cons, List.nodup_cons] at hids
      rw [replaceIn, List.map_cons]
      cases hlookup : replacements.lookup d.id with
      | none => simp only [ih hids.2]
      | some new =>
          simp only [ih hids.2, List.cons.injEq, true_and]
          apply List.map_congr_left
          intro other hother
          have hne : other.id ≠ d.id := by
            intro heq
            exact hids.1 (heq ▸ List.mem_map_of_mem hother)
          rw [lookup_filter_of_ne hne]

/-- In a list of what became of documents, each is found by its identity. -/
theorem lookup_filterMap_of_nodup {docs : List Document} (hids : (docs.map Document.id).Nodup)
    (new? : Document → Option Document) {d : Document} (hd : d ∈ docs) :
    (docs.filterMap fun other => (new? other).map fun new => (other.id, new)).lookup d.id =
      new? d := by
  induction docs with
  | nil => cases hd
  | cons head docs ih =>
      rw [List.map_cons, List.nodup_cons] at hids
      rcases List.mem_cons.mp hd with rfl | hd
      · cases hnew : new? d with
        | some new => simp [hnew]
        | none =>
            simp only [List.filterMap_cons, hnew, Option.map_none, List.lookup_eq_none_iff]
            rintro ⟨id, new⟩ hentry
            obtain ⟨other, hother, hsome⟩ := List.mem_filterMap.mp hentry
            obtain ⟨_, -, heq⟩ := Option.map_eq_some_iff.mp hsome
            simp only [Prod.mk.injEq] at heq
            rw [← heq.1, bne_iff_ne]
            intro hsame
            exact hids.1 (hsame ▸ List.mem_map_of_mem hother)
      · have hne : d.id ≠ head.id := by
          intro heq
          exact hids.1 (heq ▸ List.mem_map_of_mem hd)
        cases hnew : new? head with
        | none => simpa [hnew] using ih hids.2 hd
        | some new =>
            rw [List.filterMap_cons, hnew, Option.map_some, lookup_cons_of_ne hne]
            exact ih hids.2 hd

/-! ### A batch, document by document -/

section Batch

variable (parser : Parser) (batch : FixBatch)

/-- What becomes of the edits of a batch for a document. -/
def editOutcome (d : Document) : EditOutcome :=
  ⟨d, (batch.editsFor d.id).length, applyDocument parser d (batch.editsFor d.id)⟩

@[simp] theorem document_editOutcome (d : Document) : (editOutcome parser batch d).document = d :=
  rfl

/-- The document that stands in the place of a document behind a batch. -/
def settled (d : Document) : Document :=
  match (editOutcome parser batch d).changed? with
  | some new => { new with revision := d.revision + 1 }
  | none => d

/-- No edits leave a document as it is. -/
theorem applyDocument_nil (d : Document) : applyDocument parser d [] = .ok d := by
  simp [applyDocument, Edit.lastFirst, findOverlap, replaceAll, Document.withTree]

/-- A document without edits is neither changed nor a failure. -/
theorem editOutcome_of_isEmpty {d : Document} (h : (batch.editsFor d.id).isEmpty = true) :
    (editOutcome parser batch d).result = .ok d := by
  rw [editOutcome, List.isEmpty_iff.mp h]
  exact applyDocument_nil parser d

/-- Only documents with edits count in what is read off the outcomes. -/
theorem filterMap_editOutcome_filter {α : Type} (docs : List Document)
    (read : EditOutcome → Option α)
    (hread : ∀ o : EditOutcome, o.result = .ok o.document → read o = none) :
    ((docs.filter fun d => !(batch.editsFor d.id).isEmpty).map (editOutcome parser batch)).filterMap
        read =
      docs.filterMap fun d => read (editOutcome parser batch d) := by
  induction docs with
  | nil => rfl
  | cons d docs ih =>
      cases hempty : (batch.editsFor d.id).isEmpty with
      | false =>
          rw [List.filter_cons_of_pos (by simp [hempty]), List.map_cons, List.filterMap_cons,
            List.filterMap_cons, ih]
      | true =>
          have hnone := hread _ (editOutcome_of_isEmpty parser batch hempty)
          rw [List.filter_cons_of_neg (by simp [hempty]), ih, List.filterMap_cons, hnone]

/-- The documents with edits, in order. -/
theorem map_fst_targets (docs : List Document) :
    (docs.zipIdx.filter fun (d, _) => !(batch.editsFor d.id).isEmpty).map Prod.fst =
      docs.filter fun d => !(batch.editsFor d.id).isEmpty := by
  have hmap := List.filter_map (f := Prod.fst) (p := fun d : Document =>
    !(batch.editsFor d.id).isEmpty) (l := docs.zipIdx)
  rw [List.zipIdx_map_fst] at hmap
  exact hmap.symm

/-- What a batch does to a project, whatever the identities of its documents. -/
def appliedBatch (project : Project) : Applied :=
  let outcomes := (project.documents.filter fun d => !(batch.editsFor d.id).isEmpty).map
    (editOutcome parser batch)
  { project := project.replace
      (outcomes.reverse.filterMap fun o => o.changed?.map fun new => (o.document.id, new))
    changes := outcomes.filterMap EditOutcome.change?
    failures := outcomes.filterMap (EditOutcome.failure? project.name) }

theorem applyBatch_calm (project : Project) :
    applyBatch parser project batch (fun _ => false) =
      some (appliedBatch parser batch project) := by
  have houtcomes : ((project.documents.zipIdx.filter fun (d, _) =>
      !(batch.editsFor d.id).isEmpty).map fun (d, _) =>
        (⟨d, (batch.editsFor d.id).length, applyDocument parser d (batch.editsFor d.id)⟩ :
          EditOutcome)) =
      (project.documents.filter fun d => !(batch.editsFor d.id).isEmpty).map
        (editOutcome parser batch) := by
    rw [← map_fst_targets, List.map_map]
    rfl
  simp only [applyBatch, houtcomes]
  rw [if_neg (by simp)]
  rfl

/-- What a batch does to a project whose documents have different identities. -/
theorem applyBatch_eq {project : Project} (hids : (project.documents.map Document.id).Nodup) :
    applyBatch parser project batch (fun _ => false) =
      some
        { project := { project with documents := project.documents.map (settled parser batch) }
          changes := project.documents.filterMap fun d => (editOutcome parser batch d).change?
          failures := project.documents.filterMap fun d =>
            (editOutcome parser batch d).failure? project.name } := by
  have hchanged : ∀ o : EditOutcome, o.result = .ok o.document → o.changed? = none := by
    intro o ho
    simp [EditOutcome.changed?, ho]
  have hreverse : (project.documents.reverse.map Document.id).Nodup := by
    rw [List.map_reverse, List.Nodup, List.pairwise_reverse]
    exact hids.imp Ne.symm
  have hdocuments : Project.replaceIn project.documents
      (((project.documents.filter fun d => !(batch.editsFor d.id).isEmpty).map
        (editOutcome parser batch)).reverse.filterMap fun o =>
          o.changed?.map fun new => (o.document.id, new)) =
      project.documents.map (settled parser batch) := by
    rw [Project.replaceIn_eq_map hids, ← List.map_reverse, ← List.filter_reverse,
      filterMap_editOutcome_filter parser batch _ _ fun o ho => by rw [hchanged o ho]; rfl]
    apply List.map_congr_left
    intro d hd
    have hfound := lookup_filterMap_of_nodup hreverse
      (fun d => (editOutcome parser batch d).changed?) (List.mem_reverse.mpr hd)
    rw [settled, ← hfound]
    rfl
  have hchanges := filterMap_editOutcome_filter parser batch project.documents
    EditOutcome.change? fun o ho => by rw [EditOutcome.change?, hchanged o ho]; rfl
  have hfailures := filterMap_editOutcome_filter parser batch project.documents
    (EditOutcome.failure? project.name) fun o ho => by rw [EditOutcome.failure?, ho]
  simp only [applyBatch_calm, appliedBatch, Project.replace, hdocuments, hchanges, hfailures]

/-- An interruption stops a batch as a whole, or makes no difference. -/
theorem applyBatch_all_or_none (project : Project) :
    ∃ applied, applyBatch parser project batch (fun _ => false) = some applied ∧
      ∀ interrupted, applyBatch parser project batch interrupted = none ∨
        applyBatch parser project batch interrupted = some applied := by
  simp only [applyBatch]
  refine ⟨_, if_neg (by simp), ?_⟩
  intro interrupted
  split
  · exact Or.inl rfl
  · exact Or.inr rfl

/-- A batch that is not stopped gives what it gives without interruption. -/
theorem applyBatch_eq_some {project : Project} {interrupted : Nat → Bool} {applied : Applied}
    (h : applyBatch parser project batch interrupted = some applied) :
    applied = appliedBatch parser batch project := by
  obtain ⟨calm, hcalm, hdone⟩ := applyBatch_all_or_none parser batch project
  rw [applyBatch_calm] at hcalm
  cases hcalm
  rcases hdone interrupted with hstop | hsame
  · rw [hstop] at h
    cases h
  · exact Option.some.inj (h.symm.trans hsame)

end Batch

/-! ### The text behind the trees

Each edit makes a new tree.  What text that is depends on the texts alone, and it is parsed if the
first one is. -/

/-- What edits that are made one after the other make of a text. -/
def spliceAll : List Edit → List Char → Except Text.SpanError (List Char)
  | [], cs => .ok cs
  | e :: es, cs =>
    match Text.splice e.span e.replacement.toList cs with
    | .ok cs => spliceAll es cs
    | .error err => .error err

section

variable {parser : Parser} {es : List Edit} {t : SyntaxTree}

theorem replaceAll_eq_error {e : Text.SpanError} (h : spliceAll es t.text.toList = .error e) :
    replaceAll parser es t = .error e := by
  induction es generalizing t with
  | nil => cases h
  | cons edit es ih =>
      rw [spliceAll] at h
      rw [replaceAll]
      cases hsplice : Text.splice edit.span edit.replacement.toList t.text.toList with
      | ok cs =>
          obtain ⟨next, hnext, htext⟩ := SyntaxTree.exists_of_splice parser hsplice
          rw [hsplice, ← htext] at h
          rw [hnext]
          exact ih h
      | error err =>
          rw [hsplice] at h
          cases h
          simp only [SyntaxTree.replace, hsplice]

theorem exists_of_spliceAll (parser : Parser) {new : List Char}
    (h : spliceAll es t.text.toList = .ok new) :
    ∃ tree, replaceAll parser es t = .ok tree ∧ tree.text.toList = new := by
  induction es generalizing t with
  | nil =>
      cases h
      exact ⟨t, rfl, rfl⟩
  | cons edit es ih =>
      rw [spliceAll] at h
      split at h
      case h_2 => cases h
      case h_1 cs hsplice =>
        obtain ⟨next, hnext, rfl⟩ := SyntaxTree.exists_of_splice parser hsplice
        rw [replaceAll, hnext]
        exact ih h

theorem spliceAll_of_replaceAll {tree : SyntaxTree} (h : replaceAll parser es t = .ok tree) :
    spliceAll es t.text.toList = .ok tree.text.toList := by
  cases hsplice : spliceAll es t.text.toList with
  | error e => cases h.symm.trans (replaceAll_eq_error hsplice)
  | ok new =>
      obtain ⟨other, hother, rfl⟩ := exists_of_spliceAll parser hsplice
      cases h.symm.trans hother
      rfl

theorem parsed_of_replaceAll (ht : t = parser.tree t.text) {tree : SyntaxTree}
    (h : replaceAll parser es t = .ok tree) : tree = parser.tree tree.text := by
  induction es generalizing t with
  | nil =>
      cases h
      exact ht
  | cons edit es ih =>
      rw [replaceAll] at h
      split at h
      · exact ih (SyntaxTree.parsed_of_replace ht ‹_›) h
      · cases h

end

/-! ### One token at several places -/

theorem Span.isLE_compare_iff {a b : Span} :
    (a.compare b).isLE = true ↔ a.start < b.start ∨ (a.start = b.start ∧ a.stop ≤ b.stop) := by
  rw [compare, Ordering.isLE_then_iff_or, Nat.compare_eq_lt, Nat.compare_eq_eq, Nat.isLE_compare]

theorem Edit.pairwise_lastFirst (edits : List Edit) :
    (Edit.lastFirst edits).Pairwise fun a b => (b.span.compare a.span).isLE = true := by
  apply List.pairwise_mergeSort
  · intro a b c
    simp only [Span.isLE_compare_iff]
    omega
  · intro a b
    simp only [Bool.or_eq_true, Span.isLE_compare_iff]
    omega

/-- Edits that start at different places are made in the opposite order. -/
theorem Edit.lastFirst_eq_reverse {edits ascending : List Edit} (hperm : ascending.Perm edits)
    (hascending : ascending.Pairwise fun a b => a.span.start < b.span.start) :
    Edit.lastFirst edits = ascending.reverse := by
  have hreverse : ascending.reverse.Pairwise fun a b => b.span.start < a.span.start :=
    List.pairwise_reverse.mpr hascending
  have hsame : (Edit.lastFirst edits).Perm ascending.reverse :=
    ((List.mergeSort_perm edits _).trans hperm.symm).trans (List.reverse_perm ascending).symm
  have hdistinct : (Edit.lastFirst edits).Pairwise fun a b => a.span.start ≠ b.span.start :=
    (hsame.pairwise_iff Ne.symm).mpr (hreverse.imp fun hlt heq => by omega)
  have hstrict : (Edit.lastFirst edits).Pairwise fun a b => b.span.start < a.span.start := by
    refine (hdistinct.and (Edit.pairwise_lastFirst edits)).imp ?_
    rintro a b ⟨hne, hle⟩
    rw [Span.isLE_compare_iff] at hle
    omega
  refine List.Perm.eq_of_pairwise ?_ hstrict hreverse hsame
  intro a b _ _ hab hba
  omega

/-- Edits that put a token in, each behind the one before it. -/
structure Insertions (token : String) (edits : List Edit) : Prop where
  empty : ∀ e ∈ edits, e.span = .empty e.span.start
  token : ∀ e ∈ edits, e.replacement = token
  ascending : edits.Pairwise fun a b => a.span.start < b.span.start

section Insertions

variable {token : String} {edits : List Edit}

/-- The search looks at neighbours. -/
theorem findOverlap_eq_none_iff {es : List Edit} :
    findOverlap es = none ↔ es.IsChain fun a b => a.span.overlaps b.span = false := by
  fun_induction findOverlap es with
  | case1 later earlier rest hoverlap => simp [hoverlap]
  | case2 later earlier rest hoverlap ih => simp [hoverlap, ih]
  | case3 es hshort =>
      rcases es with _ | ⟨e, _ | ⟨earlier, rest⟩⟩
      · simp
      · simp
      · exact absurd rfl (hshort e earlier rest)

theorem Insertions.findOverlap_reverse (h : Insertions token edits) :
    findOverlap edits.reverse = none := by
  apply findOverlap_eq_none_iff.mpr
  apply List.Pairwise.isChain
  rw [List.pairwise_reverse]
  refine h.ascending.imp_of_mem ?_
  intro a b ha hb hlt
  rw [h.empty a ha, h.empty b hb, Bool.eq_false_iff, ne_eq, Span.overlaps_iff]
  simp only [Span.empty]
  omega

/-- Made from the last to the first, edits that put a token in find their places unmoved. -/
theorem spliceAll_insertAt {es : List Edit} {marks : List Nat} {cs : List Char}
    (hempty : ∀ e ∈ es, e.span = .empty e.span.start) (htoken : ∀ e ∈ es, e.replacement = token)
    (hdescending : es.Pairwise fun a b => b.span.start < a.span.start)
    (hboundary : ∀ e ∈ es, Text.isBoundary e.span.start cs = true)
    (hmarks : marks.Nodup) (hcut : ∀ m ∈ marks, Text.isBoundary m cs = true)
    (hbehind : ∀ m ∈ marks, ∀ e ∈ es, e.span.start < m) :
    spliceAll es (Text.insertAt marks token.toList 0 cs) =
      .ok (Text.insertAt (es.reverse.map (·.span.start) ++ marks) token.toList 0 cs) := by
  induction es generalizing marks with
  | nil => simp [spliceAll]
  | cons e es ih =>
      have hfresh : e.span.start ∉ marks := by
        intro hmem
        exact Nat.lt_irrefl _ (hbehind _ hmem e List.mem_cons_self)
      have hcount : marks.countP (· < e.span.start) = 0 := by
        rw [List.countP_eq_zero]
        intro m hm
        have hlt := hbehind m hm e List.mem_cons_self
        simp only [decide_eq_true_eq]
        omega
      have hstep : Text.splice e.span e.replacement.toList
          (Text.insertAt marks token.toList 0 cs) =
            .ok (Text.insertAt (e.span.start :: marks) token.toList 0 cs) := by
        have hsplice := @Text.splice_insertAt token.toList marks hmarks cs hcut e.span.start
          (hboundary e List.mem_cons_self) hfresh
        rw [hcount, Nat.mul_zero, Nat.add_zero, ← hempty e List.mem_cons_self] at hsplice
        rw [htoken e List.mem_cons_self, hsplice]
      have hparts := List.pairwise_cons.mp hdescending
      have hrest := ih (fun f hf => hempty f (List.mem_cons_of_mem e hf))
        (fun f hf => htoken f (List.mem_cons_of_mem e hf)) hparts.2
        (fun f hf => hboundary f (List.mem_cons_of_mem e hf))
        (List.nodup_cons.mpr ⟨hfresh, hmarks⟩)
        (by
          intro m hm
          rcases List.mem_cons.mp hm with rfl | hm
          · exact hboundary e List.mem_cons_self
          · exact hcut m hm)
        (by
          intro m hm f hf
          rcases List.mem_cons.mp hm with rfl | hm
          · exact hparts.1 f hf
          · exact hbehind m hm f (List.mem_cons_of_mem e hf))
      simp [spliceAll, hstep, hrest]

/-- A parsed document whose text gets a token at several places: the new text must not have become
faulty. -/
theorem Insertions.applyDocument_eq (h : Insertions token edits) {parser : Parser} {d : Document}
    (hparsed : d.tree = parser.tree d.text)
    (hboundary : ∀ e ∈ edits, Text.isBoundary e.span.start d.text.toList = true) :
    applyDocument parser d edits =
      let tree := parser.tree (String.ofList
        (Text.insertAt (edits.map (·.span.start)) token.toList 0 d.text.toList))
      if !d.tree.hasErrors && tree.hasErrors then .error (.syntaxBroken tree.firstError)
      else .ok (d.withTree tree) := by
  have hsplice : spliceAll edits.reverse d.text.toList =
      .ok (Text.insertAt (edits.map (·.span.start)) token.toList 0 d.text.toList) := by
    have hall := @spliceAll_insertAt token edits.reverse [] d.text.toList
      (fun e he => h.empty e (List.mem_reverse.mp he))
      (fun e he => h.token e (List.mem_reverse.mp he)) (List.pairwise_reverse.mpr h.ascending)
      (fun e he => hboundary e (List.mem_reverse.mp he)) List.nodup_nil (by simp) (by simp)
    rw [Text.insertAt_nil, List.reverse_reverse, List.append_nil] at hall
    exact hall
  obtain ⟨tree, hmade, htext⟩ := exists_of_spliceAll parser hsplice
  have htree := parsed_of_replaceAll hparsed hmade
  rw [← @String.ofList_toList tree.text, htext] at htree
  have horder := Edit.lastFirst_eq_reverse (List.Perm.refl edits) h.ascending
  simp only [applyDocument, horder, h.findOverlap_reverse, hmade, htree]

end Insertions

end PubSweep
