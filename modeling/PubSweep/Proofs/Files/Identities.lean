import Mathlib.Data.List.Forall2
import Mathlib.Data.Set.Function
import PubSweep.Proofs.Apply
import PubSweep.Proofs.Files.Discovery

/-!
The identities of documents that are found below a root.

An identity is made of a key: the name of the project, and the path of the document with slashes in
place of backslashes.  A name may have a backslash in it, so the paths of two files can differ in
this alone, and then the two documents share an identity (`loadProjects_shared_identity`).  All
other documents of a project keep apart (`loadProjects_identities`).
-/

namespace PubSweep

/-! ### Keys -/

namespace DocumentId

/-- What the identity of the document at a path of a project is made of. -/
def key (project : String) (path : Path) : List UInt8 :=
  Text.bytesOf (project ++ "|" ++ path.toSlashes.text).toList

theorem ofPath_eq_ofName (project : String) (path : Path) :
    ofPath project path = Uuid.ofName space (key project path) := rfl

theorem key_eq_iff {project : String} {a b : Path} :
    key project a = key project b ↔ a.toSlashes = b.toSlashes := by
  have hencode : key project a = key project b ↔
      project ++ "|" ++ a.toSlashes.text = project ++ "|" ++ b.toSlashes.text :=
    Files.encode_injective.eq_iff
  rw [hencode, String.append_right_inj, Path.mk.injEq]

end DocumentId

/-- A path without backslashes has its slashes already. -/
theorem Path.toSlashes_eq_self {p : Path} (h : '\\' ∉ p.text.toList) : p.toSlashes = p := by
  have hmap : (p.text.toList.map fun c => if c = '\\' then '/' else c) = p.text.toList := by
    refine (List.map_congr_left ?_).trans (List.map_id _)
    intro c hc
    refine if_neg ?_
    rintro rfl
    exact h hc
  rw [toSlashes, hmap, String.ofList_toList]

/-! ### What is found by an identity -/

/-- A document stays in its place, or one that was given for its identity comes there. -/
theorem Project.forall₂_replaceIn (docs : List Document)
    (replacements : List (DocumentId × Document)) :
    List.Forall₂ (fun d after => after = d ∨
      ∃ new, (d.id, new) ∈ replacements ∧ after = { new with revision := d.revision + 1 })
        docs (replaceIn docs replacements) := by
  induction docs generalizing replacements with
  | nil => exact .nil
  | cons d docs ih =>
      rw [replaceIn]
      cases hlookup : replacements.lookup d.id with
      | none => exact .cons (Or.inl rfl) (ih replacements)
      | some new =>
          refine .cons (Or.inr ⟨new, Files.mem_of_lookup hlookup, rfl⟩) ((ih _).imp ?_)
          rintro other after (hsame | ⟨new, hnew, hafter⟩)
          · exact Or.inl hsame
          · exact Or.inr ⟨new, (List.mem_filter.mp hnew).1, hafter⟩

/-- A project of different files in which just those share an identity whose paths are the same with
slashes in place of backslashes. -/
structure Project.KnownByPath (p : Project) : Prop where
  files : p.documents.Pairwise fun d e => d.path ≠ e.path
  ids : ∀ d ∈ p.documents, ∀ e ∈ p.documents,
    d.id = e.id ↔ d.path.toSlashes = e.path.toSlashes
  /-- Without backslashes in the names, all identities are different. -/
  distinct : (∀ d ∈ p.documents, '\\' ∉ d.path.text.toList) →
    (p.documents.map Document.id).Nodup
  /-- Of edits that were made for documents of the project, a batch hands those to a document that
  were made for it, or for one with the same identity. -/
  edits : ∀ made : List (Document × Edit),
    (∀ x ∈ made, x.1 ∈ p.documents ∧ x.2.document = x.1.id) → ∀ rule fix, ∀ d ∈ p.documents,
      ((⟨rule, fix, []⟩ : FixBatch).acceptAll (made.map Prod.snd)).editsFor d.id =
        (made.filter fun x => x.1.path.toSlashes = d.path.toSlashes ∧ x.2.fix = fix).map Prod.snd
  /-- In the place of a document comes its own new tree, or that of one with the same identity. -/
  slots : ∀ edited : List (Document × Syntax.SyntaxTree), (∀ x ∈ edited, x.1 ∈ p.documents) →
    List.Forall₂ (fun d after => after = d ∨
      ∃ x ∈ edited, x.1.path.toSlashes = d.path.toSlashes ∧
        after = { x.1 with tree := x.2, revision := d.revision + 1 })
      p.documents (p.replace (edited.map fun x => (x.1.id, x.1.withTree x.2))).documents

section

variable {p : Project}
  (hkeys : Set.InjOn (Uuid.ofName DocumentId.space)
    {k | ∃ d ∈ p.documents, k = DocumentId.key p.name d.path})
  (hown : ∀ d ∈ p.documents, d.id = DocumentId.ofPath p.name d.path)

include hkeys hown

/-- If no two keys of a project give the same identity, documents share an identity exactly if
their paths are the same with slashes in place of backslashes. -/
theorem id_eq_iff {d e : Document} (hd : d ∈ p.documents) (he : e ∈ p.documents) :
    d.id = e.id ↔ d.path.toSlashes = e.path.toSlashes := by
  rw [hown d hd, hown e he, DocumentId.ofPath_eq_ofName, DocumentId.ofPath_eq_ofName,
    hkeys.eq_iff ⟨d, hd, rfl⟩ ⟨e, he, rfl⟩, DocumentId.key_eq_iff]

theorem knownByPath_of_files (hfiles : p.documents.Pairwise fun d e => d.path ≠ e.path) :
    p.KnownByPath where
  files := hfiles
  ids d hd e he := id_eq_iff hkeys hown hd he
  distinct hplain := by
    rw [List.Nodup, List.pairwise_map]
    refine hfiles.imp_of_mem ?_
    intro d e hd he hne hid
    have hslashes := (id_eq_iff hkeys hown hd he).mp hid
    rw [Path.toSlashes_eq_self (hplain d hd), Path.toSlashes_eq_self (hplain e he)] at hslashes
    exact hne hslashes
  edits made hmade rule fix d hd := by
    rw [FixBatch.editsFor_new, List.filter_map]
    refine congrArg (List.map Prod.snd) (List.filter_congr ?_)
    intro x hx
    obtain ⟨hdocument, hid⟩ := hmade x hx
    simp only [Function.comp_apply, hid, id_eq_iff hkeys hown hdocument hd]
    exact decide_eq_decide.mpr And.comm
  slots edited hedited := by
    have hplaces := (List.forall₂_and_left _ _).mpr
      ⟨fun d hd => hd, Project.forall₂_replaceIn p.documents
        (edited.map fun x => (x.1.id, x.1.withTree x.2))⟩
    refine hplaces.imp ?_
    rintro d after ⟨hd, hsame | ⟨new, hnew, hafter⟩⟩
    · exact Or.inl hsame
    · -- what has come here was given for the identity of `d`, perhaps by another document
      obtain ⟨x, hx, heq⟩ := List.mem_map.mp hnew
      obtain ⟨hid, rfl⟩ := Prod.mk.inj heq
      exact Or.inr ⟨x, hx, (id_eq_iff hkeys hown (hedited x hx) hd).mp hid, hafter⟩

end

/-! ### Loaded documents -/

namespace Files

open Entry Syntax

section

variable {parser : Parser} {fs : FileSystem} {root : Path} {exclude : List Glob.Pattern}
  {p : Project}

theorem id_of_mem_projectsOf {visited : List Visited}
    (hp : p ∈ projectsOf parser fs root exclude visited) :
    ∀ d ∈ p.documents, d.id = DocumentId.ofPath p.name d.path := by
  intro d hd
  obtain ⟨v, -, rfl, hdocument⟩ := exists_source_of_mem hp hd
  obtain ⟨text, -, rfl⟩ := Option.map_eq_some_iff.mp hdocument
  rfl

/-- The documents of a project are different files. -/
theorem pairwise_path_of_mem_projectsOf {tree : Entry} (hsound : tree.isSound = true)
    (hdirectory : tree.isDirectory = true)
    (hp : p ∈ projectsOf parser fs root exclude (visitedFiles tree)) :
    p.documents.Pairwise fun d e => d.path ≠ e.path := by
  obtain ⟨v, -, rfl⟩ := mem_projectsOf.mp hp
  refine (pairwise_documents_projectAt hsound hdirectory _).imp ?_
  intro d e hlt heq
  rw [heq, Path.compare_eq_eq_iff.mpr rfl] at hlt
  cases hlt

end

/-- Only what is below a directory is loaded. -/
theorem exists_projectsOf_of_mem {parser : Parser} {fs : FileSystem} {root : Path} {tree : Entry}
    (htree : fs.entry? root = some tree) {texts : List String} {projects : List Project}
    (hload : loadProjects parser fs root texts = .ok projects) {p : Project} (hp : p ∈ projects) :
    tree.isDirectory = true ∧
      ∃ exclude, projects = projectsOf parser fs root exclude (visitedFiles tree) := by
  obtain ⟨exclude, hexclude⟩ := exists_patterns hload
  cases hdirectory : tree.isDirectory with
  | true =>
      rw [loadProjects_eq htree hdirectory hexclude] at hload
      exact ⟨rfl, exclude, (Except.ok.inj hload).symm⟩
  | false =>
      rw [loadProjects, hexclude, htree] at hload
      rcases tree with contents | entries | target
      · rw [← Except.ok.inj hload] at hp
        exact absurd hp List.not_mem_nil
      · cases hdirectory
      · rw [← Except.ok.inj hload] at hp
        exact absurd hp List.not_mem_nil

/-- In a project that is loaded from a tree, and whose keys give different identities, documents are
different files and share an identity exactly if their paths are the same with slashes in place of
backslashes.  Edits and new trees go to no other file than their own and those. -/
theorem loadProjects_identities (parser : Parser) (fs : FileSystem) (root : Path) (tree : Entry)
    (htree : fs.entry? root = some tree) (hsound : tree.isSound = true) (texts : List String)
    (projects : List Project) (hload : loadProjects parser fs root texts = .ok projects)
    (p : Project) (hp : p ∈ projects)
    (hkeys : Set.InjOn (Uuid.ofName DocumentId.space)
      {k | ∃ d ∈ p.documents, k = DocumentId.key p.name d.path}) :
    p.KnownByPath := by
  obtain ⟨hdirectory, exclude, rfl⟩ := exists_projectsOf_of_mem htree hload hp
  exact knownByPath_of_files hkeys (id_of_mem_projectsOf hp)
    (pairwise_path_of_mem_projectsOf hsound hdirectory hp)

/-! ### Two files of one identity -/

/-- A tree with two files in a directory, and a file whose name has a backslash in it. -/
def backslashTree : Entry :=
  .directory
    [(encode "src", .directory
        [(encode "a.rs", .file (encode "struct A;")), (encode "b.rs", .file (encode "struct B;"))]),
      (encode "src\\a.rs", .file (encode "struct C;"))]

/-- The project of this tree. -/
def backslashProject : Project :=
  projectAt default ⟨backslashTree, []⟩ ⟨"."⟩ [] (visitedFiles backslashTree) []

theorem loadProjects_backslashTree :
    loadProjects default ⟨backslashTree, []⟩ ⟨"."⟩ [] = .ok [backslashProject] := by
  have howners : distinctOwners ((sourcesOf [] (visitedFiles backslashTree)).map
      (ownerOf (visitedFiles backslashTree))) = [[]] := by
    decide +kernel
  rw [loadProjects_eq rfl rfl rfl, projectsOf_eq, howners, List.map_singleton,
    List.mergeSort_singleton]
  rfl

/-- The files of this tree come in the order of their paths. -/
theorem documents_backslashProject :
    backslashProject.documents = (sourcesOf [] (visitedFiles backslashTree)).filterMap
      (documentOf default ⟨backslashTree, []⟩ ⟨"."⟩ []) := by
  have howned : (sourcesOf [] (visitedFiles backslashTree)).filter
      (ownerOf (visitedFiles backslashTree) · = []) =
        sourcesOf [] (visitedFiles backslashTree) := by
    rw [List.filter_eq_self]
    decide +kernel
  rw [backslashProject, projectAt_eq, howned]
  apply List.mergeSort_of_pairwise
  decide +kernel

theorem paths_backslashProject :
    ∃ a b c, backslashProject.documents = [a, b, c] ∧ a.path = ⟨"src/a.rs"⟩ ∧
      b.path = ⟨"src/b.rs"⟩ ∧ c.path = ⟨"src\\a.rs"⟩ := by
  have hpaths : backslashProject.documents.map Document.path =
      [⟨"src/a.rs"⟩, ⟨"src/b.rs"⟩, ⟨"src\\a.rs"⟩] := by
    rw [documents_backslashProject]
    decide +kernel
  obtain ⟨a, rest, hdocuments, ha, hrest⟩ := List.map_eq_cons_iff.mp hpaths
  obtain ⟨b, rest, rfl, hb, hrest⟩ := List.map_eq_cons_iff.mp hrest
  obtain ⟨c, rest, rfl, hc, hrest⟩ := List.map_eq_cons_iff.mp hrest
  rw [List.map_eq_nil_iff.mp hrest] at hdocuments
  exact ⟨a, b, c, hdocuments, ha, hb, hc⟩

/-- Two of the three files have the same key, and the other one gives another identity. -/
theorem keys_backslashProject :
    Set.InjOn (Uuid.ofName DocumentId.space)
      {k | ∃ d ∈ backslashProject.documents, k = DocumentId.key backslashProject.name d.path} := by
  obtain ⟨a, b, c, hdocuments, ha, hb, hc⟩ := paths_backslashProject
  have hshared : DocumentId.key backslashProject.name c.path =
      DocumentId.key backslashProject.name a.path := by
    rw [DocumentId.key_eq_iff, ha, hc]
    decide
  have hpair : {k | ∃ d ∈ backslashProject.documents,
      k = DocumentId.key backslashProject.name d.path} ⊆
        {DocumentId.key backslashProject.name a.path,
          DocumentId.key backslashProject.name b.path} := by
    rintro k ⟨d, hd, hk⟩
    rw [hdocuments] at hd
    simp only [List.mem_cons, List.not_mem_nil, or_false] at hd
    rcases hd with rfl | rfl | rfl
    · exact Or.inl hk
    · exact Or.inr hk
    · exact Or.inl (hk.trans hshared)
  refine Set.InjOn.mono hpair (Set.injOn_pair.mpr fun heq => absurd heq ?_)
  have hname : backslashProject.name = "." := by decide +kernel
  rw [hname, ha, hb]
  decide +kernel

/-- Two files of one project share their key, so that the edits for one of them are handed to the
other, and its new tree comes in the place of the other. -/
theorem loadProjects_shared_identity :
    backslashTree.isSound = true ∧ ∃ (p : Project) (a b c : Document),
      loadProjects default ⟨backslashTree, []⟩ ⟨"."⟩ [] = .ok [p] ∧ p.documents = [a, b, c] ∧
      a.path = ⟨"src/a.rs"⟩ ∧ c.path = ⟨"src\\a.rs"⟩ ∧
      DocumentId.key p.name a.path = DocumentId.key p.name c.path ∧ a.id = c.id ∧
      (∀ (rule : RuleId) (edit : Edit), edit.document = c.id →
        ((⟨rule, edit.fix, []⟩ : FixBatch).accept edit).2.editsFor a.id = [edit]) ∧
      ∀ tree, (p.replace [(c.id, c.withTree tree)]).documents.head? =
        some { c with tree, revision := a.revision + 1 } := by
  obtain ⟨a, b, c, hdocuments, ha, -, hc⟩ := paths_backslashProject
  obtain ⟨-, exclude, hprojects⟩ :=
    exists_projectsOf_of_mem rfl loadProjects_backslashTree List.mem_cons_self
  have hown := id_of_mem_projectsOf (hprojects ▸ List.mem_cons_self)
  have hkey : DocumentId.key backslashProject.name a.path =
      DocumentId.key backslashProject.name c.path := by
    rw [DocumentId.key_eq_iff, ha, hc]
    decide
  have hid : a.id = c.id := by
    rw [hown a (by simp [hdocuments]), hown c (by simp [hdocuments]), DocumentId.ofPath_eq_ofName,
      hkey, ← DocumentId.ofPath_eq_ofName]
  refine ⟨rfl, backslashProject, a, b, c, loadProjects_backslashTree, hdocuments, ha, hc, hkey, hid,
    ?_, ?_⟩
  · intro rule edit hedit
    have haccepted := FixBatch.editsFor_accept (b := ⟨rule, edit.fix, []⟩) .nil edit a.id
    rw [haccepted, if_pos ⟨rfl, hedit.trans hid.symm⟩]
    rfl
  · intro tree
    rw [Project.replace, hdocuments, Project.replaceIn, hid, List.lookup_cons_self]
    rfl

theorem loadProjects_identities_backslash :
    ∃ a b c : Document, backslashProject.documents = [a, b, c] ∧ a.path ≠ c.path ∧ a.id = c.id ∧
      a.id ≠ b.id := by
  obtain ⟨a, b, c, hdocuments, ha, hb, hc⟩ := paths_backslashProject
  have hknown := loadProjects_identities default ⟨backslashTree, []⟩ ⟨"."⟩ backslashTree rfl rfl []
    [backslashProject] loadProjects_backslashTree backslashProject List.mem_cons_self
    keys_backslashProject
  have hac := hknown.ids a (by simp [hdocuments]) c (by simp [hdocuments])
  have hab := hknown.ids a (by simp [hdocuments]) b (by simp [hdocuments])
  rw [ha, hc] at hac
  rw [ha, hb] at hab
  refine ⟨a, b, c, hdocuments, ?_, hac.mpr (by decide), fun hid => absurd (hab.mp hid) (by decide)⟩
  rw [ha, hc]
  decide

end Files

end PubSweep
