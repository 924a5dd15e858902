import PubSweep.Proofs.Pass.Outcome
import PubSweep.Proofs.Patch

/-!
Five records of what a pass has changed.

A document that a pass has changed has another text, is a new document, stands among the changes of
its project, has a section in the patch, and is written.  `records_agree` says that these are the
same documents, and that each stands in each record once.
-/

namespace PubSweep

open Syntax

/-- Among items with different keys, a key picks one. -/
theorem filter_key_of_pairwise {α κ : Type} [DecidableEq κ] {key : α → κ} {as : List α}
    (h : as.Pairwise fun a b => key a ≠ key b) {a : α} (ha : a ∈ as) :
    as.filter (key · = key a) = [a] := by
  induction as with
  | nil => cases ha
  | cons b as ih =>
      obtain ⟨hfirst, hrest⟩ := List.pairwise_cons.mp h
      rcases List.mem_cons.mp ha with rfl | ha
      · have hnone : as.filter (key · = key a) = [] := by
          rw [List.filter_eq_nil_iff]
          intro c hc
          simpa using (hfirst c hc).symm
        rw [List.filter_cons_of_pos (by simp), hnone]
      · rw [List.filter_cons_of_neg (by simpa using hfirst a ha), ih hrest ha]

/-- In what is made of some of the items with different keys, the key of an item finds what is made
of it. -/
theorem filter_map_filter_of_pairwise {α β κ : Type} [DecidableEq κ] (key : α → κ) (keyOf : β → κ)
    (make : α → β) (hmake : ∀ a, keyOf (make a) = key a) (keep : α → Bool) {as : List α}
    (h : as.Pairwise fun a b => key a ≠ key b) {a : α} (ha : a ∈ as) :
    ((as.filter keep).map make).filter (keyOf · = key a) = if keep a then [make a] else [] := by
  have hkept : (as.filter keep).filter (key · = key a) = [a].filter keep := by
    rw [List.filter_comm, filter_key_of_pairwise h ha]
  rw [List.filter_map, Function.comp_def]
  simp only [hmake]
  rw [hkept]
  cases hkeep : keep a <;> simp [hkeep]

theorem length_flatMap_eq_foldr {α β : Type} (f : α → List β) (as : List α) :
    (as.flatMap f).length = as.foldr (fun a n => (f a).length + n) 0 := by
  induction as with
  | nil => rfl
  | cons a as ih => rw [List.flatMap_cons, List.length_append, List.foldr_cons, ih]

/-! ### One document -/

section

variable (parser : Parser) (batch : FixBatch) (d : Document)

/-- A batch leaves the very same document in a place if and only if the text stays. -/
theorem isShared_settled_iff :
    d.isShared (settled parser batch d) = true ↔ d.text = (settled parser batch d).text := by
  cases hchanged : (editOutcome parser batch d).changed? with
  | none =>
      rw [settled_of_changed?_eq_none hchanged]
      simp [Document.isShared]
  | some new =>
      have htext : d.text ≠ new.text := Ne.symm (changed?_eq_some hchanged).1
      rw [settled_of_changed?_eq_some hchanged]
      simp only [Document.isShared, Bool.and_eq_true, beq_iff_eq, Nat.left_eq_add, Nat.succ_ne_self,
        and_false, false_iff]
      exact htext

end

/-! ### All documents of a pass -/

/-- A writer that never fails makes all calls, one after the other. -/
theorem perform_of_never_fails {σ ε : Type} {attempt : σ → WriteCall → σ × Option ε}
    (h : ∀ s call, (attempt s call).2 = none) (calls : List WriteCall) (s : σ) :
    perform attempt calls s =
      ⟨calls.foldl (fun s call => (attempt s call).1) s, calls.length, none⟩ := by
  induction calls generalizing s with
  | nil => rfl
  | cons call calls ih =>
      have hcall : attempt s call = ((attempt s call).1, none) := by rw [← h s call]
      rw [perform, hcall]
      simp only [ih, List.foldl_cons, List.length_cons]

namespace Pass

section

variable (p : Pass) (r : Rule) (rule : RuleId) (fix : FixId) (stamp : Stamp)

/-- Whether a document of a project has another text behind a pass. -/
def alters (x : Project × Document) : Bool := x.2.text ≠ (p.settle r rule fix x.1 x.2).text

/-- The documents that have another text behind a pass, each with its project. -/
def altered (projects : List Project) : List (Project × Document) :=
  (located projects).filter (p.alters r rule fix)

/-- The change that the report tells of a document. -/
def changeOf (x : Project × Document) : DocumentChange where
  path := x.2.path.text
  edits := ((p.collector.collected r rule fix x.1).batch.editsFor x.2.id).length
  sha256Before := textDigest x.2.text
  sha256After := textDigest (p.settle r rule fix x.1 x.2).text

/-- The section of the patch for a document. -/
def sectionOf (x : Project × Document) : Patch.Section where
  path := p.patchPath x.1.root x.2.path
  hunks := Diff.patchText x.2.text (p.settle r rule fix x.1 x.2).text

/-- The call that writes a document. -/
def callOf (x : Project × Document) : WriteCall :=
  .writeFile (x.1.root.join x.2.path) (p.settle r rule fix x.1 x.2).text

theorem alters_iff {q : Project} {d : Document} :
    p.alters r rule fix (q, d) = true ↔ ¬ d.text = (p.settle r rule fix q d).text :=
  decide_eq_true_iff

theorem isShared_settle (q : Project) (d : Document) :
    d.isShared (p.settle r rule fix q d) = !p.alters r rule fix (q, d) := by
  rw [Bool.eq_iff_iff, settle, isShared_settled_iff, alters, Bool.not_eq_true',
    decide_eq_false_iff_not, not_not]
  rfl

theorem filterMap_alters {β : Type} (make : Project × Document → β)
    (xs : List (Project × Document)) :
    (xs.filterMap fun x => if p.alters r rule fix x then some (make x) else none) =
      (xs.filter (p.alters r rule fix)).map make := by
  rw [← List.filterMap_eq_map, List.filterMap_filter]
  rfl

/-- The changes in the report on a project. -/
theorem changes_outcomeIn (q : Project) :
    (p.outcomeIn r rule fix q).report.changes =
      ((q.documents.map fun d => (q, d)).filter (p.alters r rule fix)).map
        (p.changeOf r rule fix) := by
  rw [← filterMap_alters, List.filterMap_map]
  simp only [outcomeIn, change?_editOutcome]
  apply List.filterMap_congr
  intro d _
  rw [changeBetween, Function.comp_apply]
  by_cases htext : d.text = (p.settle r rule fix q d).text
  · rw [if_neg (fun h => (p.alters_iff r rule fix).mp h htext)]
    exact if_pos htext
  · rw [if_pos ((p.alters_iff r rule fix).mpr htext)]
    exact if_neg htext

theorem documentCalls_assembled (projects : List Project) :
    (p.assembled r rule fix stamp projects).documentCalls projects =
      (p.altered r rule fix projects).map (p.callOf r rule fix) := by
  have hcalls : (p.assembled r rule fix stamp projects).documentCalls projects =
      (pairs projects (p.assembled r rule fix stamp projects).projects).filterMap
        fun x => if x.2.2.1.isShared x.2.2.2 || x.2.2.1.text = x.2.2.2.text then none
          else some (.writeFile (x.2.1.root.join x.2.2.2.path) x.2.2.2.text) :=
    if_neg Bool.false_ne_true
  rw [hcalls, pairs_assembled, List.filterMap_map, altered, ← filterMap_alters]
  apply List.filterMap_congr
  rintro ⟨q, d⟩ -
  have hpath : (p.settle r rule fix q d).path = d.path := path_settled _ _ d
  simp only [Function.comp_apply, isShared_settle, hpath, callOf]
  by_cases htext : d.text = (p.settle r rule fix q d).text
  · simp [alters, ← htext]
  · simp [alters, htext, outcomeIn]

/-- The file of a document for the patch: its path and both texts. -/
def fileOf (x : Project × Document) : Path × String × String :=
  (p.patchPath x.1.root x.2.path, x.2.text, (p.settle r rule fix x.1 x.2).text)

/-- The patch is that of the altered documents. -/
theorem patch_assembled (projects : List Project) :
    (p.assembled r rule fix stamp projects).patch =
      Patch.render
        (.ofList (((p.altered r rule fix projects).map (p.fileOf r rule fix)).map
          fun f => (f.1, f.2.1)))
        (.ofList (((p.altered r rule fix projects).map (p.fileOf r rule fix)).map
          fun f => (f.1, f.2.2))) := by
  have hfiles : ((pairs projects (p.assembled r rule fix stamp projects).projects).filterMap
      fun x => if x.2.2.1.isShared x.2.2.2 then none
        else some (p.patchPath x.1.root x.2.2.1.path, x.2.2.1.text, x.2.2.2.text)) =
          (p.altered r rule fix projects).map (p.fileOf r rule fix) := by
    rw [pairs_assembled, List.filterMap_map, altered, ← filterMap_alters]
    apply List.filterMap_congr
    rintro ⟨q, d⟩ -
    simp only [Function.comp_apply, isShared_settle]
    cases p.alters r rule fix (q, d) <;> rfl
  rw [← hfiles]
  rfl

theorem changes_assembled (projects : List Project) :
    (p.assembled r rule fix stamp projects).report.projects.flatMap (·.changes) =
      (p.altered r rule fix projects).map (p.changeOf r rule fix) := by
  rw [altered, located, List.filter_flatMap, List.map_flatMap]
  change ((projects.map (p.outcomeIn r rule fix)).map ProjectOutcome.report).flatMap _ = _
  rw [List.map_map, List.flatMap_map]
  apply List.flatMap_congr
  intro q _
  exact p.changes_outcomeIn r rule fix q

theorem documentsChanged_assembled (projects : List Project) :
    (p.assembled r rule fix stamp projects).report.summary.documentsChanged =
      (p.altered r rule fix projects).length % wordSize := by
  have hcount : (p.altered r rule fix projects).length =
      (p.assembled r rule fix stamp projects).report.projects.foldr
        (fun report n => report.changes.length + n) 0 := by
    rw [← length_flatMap_eq_foldr, changes_assembled, List.length_map]
  rw [hcount]
  rfl

end

/-! ### The records -/

/-- What the records of a pass tell of a document `d` of a project `q` and of the document `e` in
its place.  `report` is the report on the project, `sections` are the sections of the patch, and
`calls` the calls that write documents. -/
structure Records (p : Pass) (sections : List Patch.Section) (calls : List WriteCall) (q : Project)
    (report : ProjectReport) (d e : Document) : Prop where
  /-- The document is the very same one if its text stays. -/
  shared : d.isShared e = true ↔ d.text = e.text
  /-- The document has one change if its text is another one, and else none. -/
  change : (report.changes.filter (·.path = d.path.text)).map
      (fun c => (c.sha256Before, c.sha256After)) =
    if d.text = e.text then []
    else
      [(Digest.Sha256.hexDigest (Text.bytesOf d.text.toList),
        Digest.Sha256.hexDigest (Text.bytesOf e.text.toList))]
  /-- The document has one section if its text is another one, and else none. -/
  patched : sections.filter (·.path.components = (p.patchPath q.root d.path).components) =
    if d.text = e.text then [] else [⟨p.patchPath q.root d.path, Diff.patchText d.text e.text⟩]
  /-- The document is written once if its text is another one, and else not at all. -/
  written : calls.filter (·.path.components = (q.root.join d.path).components) =
    if d.text = e.text then [] else [.writeFile (q.root.join d.path) e.text]

/-- The number of documents whose text is another one behind a pass. -/
def textChanges (before after : List Project) : Nat :=
  ((pairs before after).filter fun (_, _, d, e) => d.text ≠ e.text).length

/-- An outcome whose records agree on what was changed. -/
structure Agreement (p : Pass) (projects : List Project) (o : Outcome)
    (sections : List Patch.Section) : Prop where
  length : o.projects.length = projects.length
  patch : o.patch = String.join (sections.map Patch.Section.text)
  documents : ∀ (k : Nat) (q : Project), projects[k]? = some q →
    ∃ (after : Project) (report : ProjectReport),
      o.projects[k]? = some after ∧ o.report.projects[k]? = some report ∧
        List.Forall₂ (Records p sections (o.documentCalls projects) q report) q.documents
          after.documents
  /-- The changes are as many as the documents with another text. -/
  changes : (o.report.projects.flatMap (·.changes)).length = textChanges projects o.projects
  /-- So are the sections. -/
  sections : sections.length = textChanges projects o.projects
  /-- So is the total in the report, which has 64 bits. -/
  total : textChanges projects o.projects < wordSize →
    o.report.summary.documentsChanged = textChanges projects o.projects
  /-- So are the files that a writer that never fails has written in the end; it has made all calls
  once. -/
  writes : ∀ (σ ε : Type) (attempt : σ → WriteCall → σ × Option ε),
    (∀ s call, (attempt s call).2 = none) → ∀ s,
      perform attempt (o.documentCalls projects) s =
        ⟨(o.documentCalls projects).foldl (fun s call => (attempt s call).1) s,
          textChanges projects o.projects, none⟩

section

variable {p : Pass} {r : Rule} {rule : RuleId} {fix : FixId} {stamp : Stamp}
  {projects : List Project}

theorem textChanges_assembled :
    textChanges projects (p.assembled r rule fix stamp projects).projects =
      (p.altered r rule fix projects).length := by
  rw [textChanges, pairs_assembled, List.filter_map, List.length_map]
  rfl

variable (hpatch : (located projects).Pairwise fun x y =>
  (p.patchPath x.1.root x.2.path).components ≠ (p.patchPath y.1.root y.2.path).components)

include hpatch

/-- The patch has one section for each altered document. -/
theorem exists_sections_assembled : ∃ sections : List Patch.Section,
    (p.assembled r rule fix stamp projects).patch =
      String.join (sections.map Patch.Section.text) ∧
    sections.Perm ((p.altered r rule fix projects).map (p.sectionOf r rule fix)) := by
  have hpaths : ((p.altered r rule fix projects).map (p.fileOf r rule fix)).Pairwise
      fun f f' => f.1.components ≠ f'.1.components :=
    List.pairwise_map.mpr (hpatch.filter _)
  have hdiffer : ∀ f ∈ (p.altered r rule fix projects).map (p.fileOf r rule fix),
      f.2.1 ≠ f.2.2 := by
    intro f hf
    obtain ⟨x, hx, rfl⟩ := List.mem_map.mp hf
    exact of_decide_eq_true (List.mem_filter.mp hx).2
  refine ⟨_, (patch_assembled p r rule fix stamp projects).trans
    (Patch.render_eq_join_sections _ _), (Patch.sections_ofList_perm hpaths hdiffer).trans
      (.of_eq ?_)⟩
  rw [List.map_map]
  rfl

/-- Documents of one project have different paths. -/
theorem pairwise_path_of_patchPath {q : Project} (hq : q ∈ projects) :
    q.documents.Pairwise fun d e => d.path.text ≠ e.path.text := by
  have hdocuments := (List.pairwise_flatMap.mp hpatch).1 q hq
  rw [List.pairwise_map] at hdocuments
  refine hdocuments.imp ?_
  intro d e hne htext
  have hpath : d.path = e.path := congrArg Path.mk htext
  exact hne (by rw [hpath])

variable (hfiles : (located projects).Pairwise fun x y =>
  (x.1.root.join x.2.path).components ≠ (y.1.root.join y.2.path).components)

include hfiles

/-- The records of a pass tell the same of each document. -/
theorem records_assembled {sections : List Patch.Section}
    (hsections : sections.Perm ((p.altered r rule fix projects).map (p.sectionOf r rule fix)))
    {q : Project} (hq : q ∈ projects) {d : Document} (hd : d ∈ q.documents) :
    Records p sections ((p.assembled r rule fix stamp projects).documentCalls projects) q
      (p.outcomeIn r rule fix q).report d (p.settle r rule fix q d) := by
  have hmem : (q, d) ∈ located projects :=
    List.mem_flatMap.mpr ⟨q, hq, List.mem_map_of_mem hd⟩
  -- each record lists something made of the altered documents, by a key that no two of them share
  have hpaths : (q.documents.map fun d => (q, d)).Pairwise fun x y =>
      x.2.path.text ≠ y.2.path.text :=
    List.pairwise_map.mpr (pairwise_path_of_patchPath hpatch hq)
  have hchange := filter_map_filter_of_pairwise (fun x : Project × Document => x.2.path.text)
    DocumentChange.path (p.changeOf r rule fix) (fun _ => rfl) (p.alters r rule fix) hpaths
    (List.mem_map_of_mem hd)
  have hsection := filter_map_filter_of_pairwise
    (fun x : Project × Document => (p.patchPath x.1.root x.2.path).components)
    (fun s : Patch.Section => s.path.components) (p.sectionOf r rule fix) (fun _ => rfl)
    (p.alters r rule fix) hpatch hmem
  have hcall := filter_map_filter_of_pairwise
    (fun x : Project × Document => (x.1.root.join x.2.path).components)
    (fun c : WriteCall => c.path.components) (p.callOf r rule fix) (fun _ => rfl)
    (p.alters r rule fix) hfiles hmem
  have hperm := hsections.filter (·.path.components = (p.patchPath q.root d.path).components)
  rw [altered, hsection] at hperm
  by_cases htext : d.text = (p.settle r rule fix q d).text
  · have halters : ¬ p.alters r rule fix (q, d) = true := fun h =>
      (p.alters_iff r rule fix).mp h htext
    rw [if_neg halters] at hchange hcall hperm
    constructor
    case shared => exact isShared_settled_iff _ _ d
    case change => rw [changes_outcomeIn, hchange, if_pos htext, List.map_nil]
    case patched => rw [List.perm_nil.mp hperm, if_pos htext]
    case written => rw [documentCalls_assembled, altered, hcall, if_pos htext]
  · have halters : p.alters r rule fix (q, d) = true := (p.alters_iff r rule fix).mpr htext
    rw [if_pos halters] at hchange hcall hperm
    constructor
    case shared => exact isShared_settled_iff _ _ d
    case change =>
      rw [changes_outcomeIn, hchange, if_neg htext]
      rfl
    case patched =>
      rw [List.perm_singleton.mp hperm, if_neg htext]
      rfl
    case written =>
      rw [documentCalls_assembled, altered, hcall, if_neg htext]
      rfl

theorem exists_agreement_assembled :
    ∃ sections, Agreement p projects (p.assembled r rule fix stamp projects) sections := by
  obtain ⟨sections, hpatched, hsections⟩ :=
    @exists_sections_assembled p r rule fix stamp projects hpatch
  have hcalls : ((p.assembled r rule fix stamp projects).documentCalls projects).length =
      (p.altered r rule fix projects).length := by
    rw [documentCalls_assembled, List.length_map]
  refine ⟨sections, ?_⟩
  constructor
  case length => simp [assembled]
  case patch => exact hpatched
  case documents =>
    intro k q hq
    refine ⟨(p.outcomeIn r rule fix q).project, (p.outcomeIn r rule fix q).report,
      by simp [assembled, hq], by simp [assembled, Report.finish, hq], ?_⟩
    simp only [outcomeIn, List.forall₂_map_right_iff, List.forall₂_same]
    intro d hd
    exact records_assembled hpatch hfiles hsections (List.mem_of_getElem? hq) hd
  case changes =>
    rw [textChanges_assembled, changes_assembled, List.length_map]
  case sections =>
    rw [textChanges_assembled, hsections.length_eq, List.length_map]
  case total =>
    rw [textChanges_assembled]
    intro hsmall
    rw [documentsChanged_assembled, Nat.mod_eq_of_lt hsmall]
  case writes =>
    intro σ ε attempt hnever s
    rw [perform_of_never_fails hnever, hcalls, textChanges_assembled]

end

/-- The records of a pass agree.  For projects whose documents have different identities, files and
paths in the patch, a pass that is not interrupted reports the mistake of its caller, or gives an
outcome in which the same documents have another text, are new ones, stand among the changes, have
a section in the patch, and are written. -/
theorem records_agree (p : Pass) (projects : List Project)
    (hids : ∀ q ∈ projects, (q.documents.map Document.id).Nodup)
    (hfiles : (located projects).Pairwise fun x y =>
      (x.1.root.join x.2.path).components ≠ (y.1.root.join y.2.path).components)
    (hpatch : (located projects).Pairwise fun x y =>
      (p.patchPath x.1.root x.2.path).components ≠ (p.patchPath y.1.root y.2.path).components)
    (rule : RuleId) (fix : FixId) (stamp : Stamp) :
    (∃ e, p.collector.refusal rule fix = some e ∧
        p.run projects rule fix .fix stamp .never = .error e) ∨
      ∃ o sections, p.run projects rule fix .fix stamp .never = .ok o ∧
        Agreement p projects o sections := by
  cases hrefusal : p.collector.refusal rule fix with
  | some e =>
      by_cases hnil : projects = []
      · subst hnil
        -- nothing is asked of the collector where there are no projects
        obtain ⟨sections, hagree⟩ := @exists_agreement_assembled p ⟨rule, fun _ => .ok []⟩ rule fix
          stamp [] hpatch hfiles
        exact Or.inr ⟨_, sections, rfl, hagree⟩
      · exact Or.inl ⟨e, rfl, run_of_refusal hrefusal hnil .fix stamp .never⟩
  | none =>
      obtain ⟨r, -, hrun⟩ := run_calm hrefusal
      obtain ⟨sections, hagree⟩ := @exists_agreement_assembled p r rule fix stamp projects hpatch
        hfiles
      exact Or.inr ⟨_, sections, hrun projects hids stamp, hagree⟩

/-- A file with one item that lacks its visibility and a file with a syntax error, twice. -/
def twinProjects : List Project := [halfFaultyProject, { halfFaultyProject with root := ⟨"/twin"⟩ }]

/-- Of four files, the two without an error are changed, reported and written. -/
theorem records_agree_twins :
    ∃ (o : Outcome) (sections : List Patch.Section),
      (Visibility.pass Visibility.structParser ItemKind.all default (some ⟨"/"⟩)).run twinProjects
        .missingVisibility .makePub .fix default .never = .ok o ∧
      sections.length = 2 ∧ o.patch = String.join (sections.map Patch.Section.text) ∧
      (o.report.projects.flatMap (·.changes)).length = 2 ∧
      o.report.summary.documentsChanged = 2 ∧
      o.documentCalls twinProjects =
        [.writeFile ⟨"/demo/a.rs"⟩ "pub struct A;", .writeFile ⟨"/twin/a.rs"⟩ "pub struct A;"] := by
  have hagree := records_agree
    (Visibility.pass Visibility.structParser ItemKind.all default (some ⟨"/"⟩)) twinProjects
    (by decide +kernel) (by decide +kernel) (by decide +kernel) .missingVisibility .makePub default
  rcases hagree with ⟨e, hrefusal, -⟩ | ⟨o, sections, hrun, hagree⟩
  · have hnone : (Collector.standard ItemKind.all).refusal .missingVisibility .makePub = none := by
      decide +kernel
    exact absurd (hnone.symm.trans hrefusal) (Option.some_ne_none e).symm
  · have hcount : ((Visibility.pass Visibility.structParser ItemKind.all default
        (some ⟨"/"⟩)).run twinProjects .missingVisibility .makePub .fix default .never).toOption.map
          (fun o => (textChanges twinProjects o.projects, o.documentCalls twinProjects)) =
        some (2, [.writeFile ⟨"/demo/a.rs"⟩ "pub struct A;",
          .writeFile ⟨"/twin/a.rs"⟩ "pub struct A;"]) := by
      decide +kernel
    rw [hrun] at hcount
    obtain ⟨hchanges, hcalls⟩ := Prod.mk.inj (Option.some.inj hcount)
    refine ⟨o, sections, hrun, hagree.sections.trans hchanges, hagree.patch,
      hagree.changes.trans hchanges, (hagree.total ?_).trans hchanges, hcalls⟩
    rw [hchanges]
    decide

end Pass

end PubSweep
