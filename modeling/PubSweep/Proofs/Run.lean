import PubSweep.Proofs.Apply.Atomicity
import PubSweep.Proofs.Files.Reload
import PubSweep.Proofs.Pass.Cancellation
import PubSweep.Proofs.Pass.Fidelity
import PubSweep.Run

/-!
A run over loaded projects, and what is on disk after it.

`runSource_fix` gives the projects of a run: each document is settled by the batch of its project.
`apply_then_reload` says that writing them and loading again gives them back.
-/

namespace PubSweep

open Syntax Files

/-! ### The projects of a run -/

section

variable (parser : Parser) (settings : Settings) (tool : ToolInfo)

/-- What is collected from a project in a run. -/
def Settings.collected (project : Project) : Collection :=
  Visibility.collected settings.kinds Settings.rule settings.fix project

/-- The document in the place of a document of a project behind a run. -/
def Settings.settle (project : Project) (d : Document) : Document :=
  settled parser (settings.collected project).batch d

theorem isRenewal_settle : IsRenewal (settings.settle parser) where
  id _ d := id_settled parser _ d
  path _ d := path_settled parser _ d
  shared p d hshared := by
    rw [Settings.settle] at hshared ⊢
    cases hchanged : (editOutcome parser (settings.collected p).batch d).changed? with
    | none => rw [settled_of_changed?_eq_none hchanged]
    | some new =>
        rw [settled_of_changed?_eq_some hchanged] at hshared
        simp [Document.isShared] at hshared

/-- What a run makes of a project. -/
def Settings.outcomeOf (project : Project) : ProjectOutcome where
  project := renewed (settings.settle parser) project
  report :=
    { name := project.name
      documentsScanned := (settings.collected project).documentsScanned
      findings := (settings.collected project).findings.length
      editsAccepted := (settings.collected project).batch.size
      changes := project.documents.filterMap fun d =>
        (editOutcome parser (settings.collected project).batch d).change? }
  findings := (settings.collected project).findings
  failures := (settings.collected project).failures ++ project.documents.filterMap fun d =>
    (editOutcome parser (settings.collected project).batch d).failure? project.name

theorem refusal_standard :
    (settings.pass parser tool).collector.refusal Settings.rule settings.fix = none := by
  have h : ∀ fix : FixId,
      (Collector.standard settings.kinds).refusal .missingVisibility fix = none := by
    intro fix
    cases fix <;> rfl
  exact h settings.fix

variable {parser settings tool} {projects : List Project}
  (hids : ∀ p ∈ projects, (p.documents.map Document.id).Nodup)

include hids

theorem runProjects_standard :
    (settings.pass parser tool).runProjects Settings.rule settings.fix .fix .never 0 projects =
      .ok (some (projects.map (settings.outcomeOf parser))) := by
  apply Pass.runProjects_eq_map
  intro project hproject index
  have hcollect := Visibility.collect_standard settings.kinds project Settings.rule settings.fix
  have happly := applyBatch_eq parser (settings.collected project).batch (hids project hproject)
  rw [Settings.collected] at happly
  simp only [Pass.runProject, Settings.pass, Interrupt.never, hcollect, happly]
  rfl

/-- A run that gives an outcome has settled all documents, or was cancelled and has settled none. -/
theorem runSource_fix (stamp : Stamp) :
    (∃ outcome, runSource parser settings tool .fix stamp .never (.ok projects) = .ok outcome) ∧
      ∀ interrupt outcome,
        runSource parser settings tool .fix stamp interrupt (.ok projects) = .ok outcome →
          ∃ renew, IsRenewal renew ∧ outcome.projects = projects.map (renewed renew) ∧
            (outcome.report.cancelled = true → renew = fun _ d => d) := by
  obtain ⟨os, hcalm, hos⟩ := Pass.runProjects_of_refusal_eq_none
    (refusal_standard parser settings tool) .fix 0 projects
  cases hcalm.symm.trans (runProjects_standard hids)
  constructor
  · exact ⟨_, by simp only [runSource, Pass.run, hcalm]; rfl⟩
  · intro interrupt outcome hrun
    rw [runSource] at hrun
    split at hrun
    · cases hrun
    · rcases hos interrupt with hstop | hdone
      · simp only [Pass.run, hstop, Except.ok.injEq] at hrun
        subst hrun
        refine ⟨fun _ d => d, ⟨fun _ _ => rfl, fun _ _ => rfl, fun _ _ _ => rfl⟩, ?_, fun _ => rfl⟩
        have hid : renewed (fun _ d => d) = id := by
          funext p
          simp [renewed]
        rw [hid, List.map_id]
        rfl
      · simp only [Pass.run, hdone, Except.ok.injEq] at hrun
        subst hrun
        refine ⟨settings.settle parser, isRenewal_settle parser settings, ?_, ?_⟩
        · rw [Pass.finished, List.map_map]
          rfl
        · exact fun hcancelled => absurd hcancelled Bool.false_ne_true

end

/-! ### Writing and loading again -/

/-- A document and one with the same identity, path and text. -/
structure SameDocument (a b : Document) : Prop where
  id : a.id = b.id
  path : a.path = b.path
  text : a.text = b.text

/-- A project and one with the same name and root, and with the same documents in the same
order. -/
structure SameProject (a b : Project) : Prop where
  name : a.name = b.name
  root : a.root = b.root
  documents : List.Forall₂ SameDocument a.documents b.documents

/-- A project beside one with the same name and root, and in each place with a document of the same
identity and path. -/
structure Beside (a b : Project) : Prop where
  name : a.name = b.name
  root : a.root = b.root
  documents : List.Forall₂ (fun d e : Document => d.id = e.id ∧ d.path = e.path) a.documents
    b.documents

section

variable {renew : Project → Document → Document} (h : IsRenewal renew)

include h

theorem beside_renewed (p : Project) : Beside p (renewed renew p) where
  name := rfl
  root := rfl
  documents := by
    rw [renewed, List.forall₂_map_right_iff, List.forall₂_same]
    exact fun d _ => ⟨(h.id p d).symm, (h.path p d).symm⟩

omit h in
variable (renew) in
theorem mem_pairs_renewed {projects : List Project} {p : Project} (hp : p ∈ projects)
    {d : Document} (hd : d ∈ p.documents) :
    (p, renewed renew p, d, renew p d) ∈ Pass.pairs projects (projects.map (renewed renew)) := by
  simp only [Pass.pairs, List.zip, List.zipWith_map_right, List.zipWith_self, List.flatMap_map,
    List.mem_flatMap, renewed, List.mem_map]
  exact ⟨p, hp, _, ⟨d, hd, rfl⟩, rfl⟩

theorem sameProject_reread (parser : Parser) (p : Project) :
    SameProject (reread parser renew p) (renewed renew p) where
  name := rfl
  root := rfl
  documents := by
    rw [reread, renewed, List.forall₂_map_left_iff, List.forall₂_map_right_iff, List.forall₂_same]
    exact fun d _ => ⟨(h.id p d).symm, (h.path p d).symm, rfl⟩

end

theorem sortByRoot_of_pairwise {projects : List Project}
    (h : projects.Pairwise fun a b => a.root.compare b.root = .lt) :
    sortByRoot projects = projects := by
  apply List.mergeSort_of_pairwise
  refine h.imp ?_
  intro a b hlt
  rw [hlt]
  rfl

/-- Projects that are loaded from a tree without links, corrected, written with no write refused,
and loaded again are the corrected projects.  The run has an outcome unless it is cancelled; its
projects and documents stand beside those that were loaded, and no file has changed but those of
documents whose text has. -/
theorem apply_then_reload (parser : Parser) (fs : FileSystem) (root : Path) (tree : Entry)
    (htree : fs.entry? root = some tree) (hdirectory : tree.isDirectory = true)
    (hsound : tree.isSound = true) (hlinks : ∀ l t, tree.get? l ≠ some (.link t))
    (texts : List String) (before : List Project)
    (hload : loadProjects parser fs root texts = .ok before)
    (hids : ∀ p ∈ before, (p.documents.map Document.id).Nodup)
    (settings : Settings) (tool : ToolInfo) (stamp : Stamp) :
    (∃ outcome, runSource parser settings tool .fix stamp .never (.ok (sortByRoot before)) =
        .ok outcome) ∧
      ∀ interrupt outcome, runSource parser settings tool .fix stamp interrupt
          (.ok (sortByRoot before)) = .ok outcome →
        (perform attempt (outcome.documentCalls before) fs).error = none →
          List.Forall₂ Beside before outcome.projects ∧
          (∀ l, (perform attempt (outcome.documentCalls before) fs).state.top.fileAt l ≠
              fs.top.fileAt l →
            ∃ p q d e, (p, q, d, e) ∈ Pass.pairs before outcome.projects ∧ d.text ≠ e.text ∧
              ∃ (above : Location) (names : List String),
                fs.locate root = .ok above ∧ l = above ++ names.map encode ∧
                (p.root.join d.path).components = root.components ++ names.map .name) ∧
          ∃ reloaded, loadProjects parser
              (perform attempt (outcome.documentCalls before) fs).state root texts = .ok reloaded ∧
            List.Forall₂ SameProject reloaded outcome.projects := by
  obtain ⟨exclude, hexclude⟩ := exists_patterns hload
  obtain ⟨location, hlocate, hholds⟩ := exists_holds htree hdirectory hsound hlinks
  cases hload.symm.trans (loadProjects_eq htree hdirectory hexclude)
  rw [sortByRoot_of_pairwise (pairwise_projectsOf hsound hdirectory hholds.text)]
  obtain ⟨hexists, houtcomes⟩ := @runSource_fix parser settings tool _ hids stamp
  refine ⟨hexists, ?_⟩
  intro interrupt outcome hrun hdone
  obtain ⟨renew, hrenew, hprojects, hcancelled⟩ := houtcomes interrupt outcome hrun
  obtain ⟨hreload, hfiles⟩ := reload_renewal hholds hlocate hrenew
    (documentCalls_eq hprojects hcancelled) hdone hexclude
  refine ⟨?_, ?_, _, hreload, ?_⟩
  · rw [hprojects, List.forall₂_map_right_iff, List.forall₂_same]
    exact fun p _ => beside_renewed hrenew p
  · intro l hl
    obtain ⟨v, hv, text, rfl, htext⟩ := hfiles l hl
    obtain ⟨d, hdocument, hnew⟩ := Option.bind_eq_some_iff.mp htext
    have hpair := mem_pairs_renewed renew (mem_projectsOf.mpr ⟨v, hv, rfl⟩)
      (mem_documents_projectAt.mpr ⟨v, hv, rfl, hdocument⟩)
    rw [← hprojects] at hpair
    refine ⟨_, _, _, _, hpair, ?_, location, v.names, hlocate, rfl,
      components_join_documentOf hsound hdirectory hholds.text hv hdocument⟩
    intro hsame
    rw [newText?, if_pos (by simp [hsame])] at hnew
    cases hnew
  · rw [hprojects, List.forall₂_map_left_iff, List.forall₂_map_right_iff, List.forall₂_same]
    exact fun p _ => sameProject_reread hrenew parser p

/-- A tree with a project in a project. -/
def innerTree : Entry :=
  .directory
    [(encode "Cargo.toml", .file []), (encode "a.rs", .file (encode "struct A;")),
      (encode "member", .directory
        [(encode "Cargo.toml", .file []), (encode "a.rs", .file (encode "struct A;"))])]

/-- The projects of the tree. -/
def innerProjects : List Project :=
  let document (name : String) :=
    Document.parse Visibility.structParser name ⟨"a.rs"⟩ "struct A;"
  [⟨".", ⟨"."⟩, [document "."]⟩, ⟨"member", ⟨"./member"⟩, [document "member"]⟩]

theorem innerTree_ne_link : ∀ l t, innerTree.get? l ≠ some (.link t) := by
  apply Entry.get?_directory_ne_link
  simp only [List.forall_mem_cons, List.not_mem_nil, false_implies, implies_true, and_true]
  refine ⟨Entry.get?_file_ne_link _, Entry.get?_file_ne_link _, Entry.get?_directory_ne_link ?_⟩
  simp only [List.forall_mem_cons, List.not_mem_nil, false_implies, implies_true, and_true]
  exact ⟨Entry.get?_file_ne_link _, Entry.get?_file_ne_link _⟩

theorem loadProjects_innerTree :
    loadProjects Visibility.structParser ⟨innerTree, []⟩ ⟨"."⟩ [] = .ok innerProjects := by
  rw [loadProjects_eq rfl rfl rfl, projectsOf, List.mergeSort_of_pairwise (by decide +kernel)]
  decide +kernel

theorem sortByRoot_innerProjects : sortByRoot innerProjects = innerProjects :=
  sortByRoot_of_pairwise (by decide)

theorem distinct_innerProjects : ∀ p ∈ innerProjects, (p.documents.map Document.id).Nodup := by
  decide

theorem apply_then_reload_inner :
    ∃ outcome reloaded,
      runSource Visibility.structParser {} default .fix default .never
        (.ok (sortByRoot innerProjects)) = .ok outcome ∧
      outcome.projects.map (·.documents.map Document.text) =
        [["pub struct A;"], ["pub struct A;"]] ∧
      loadProjects Visibility.structParser
        (perform attempt (outcome.documentCalls innerProjects) ⟨innerTree, []⟩).state ⟨"."⟩ [] =
          .ok reloaded ∧
      List.Forall₂ SameProject reloaded outcome.projects := by
  obtain ⟨⟨outcome, hrun⟩, houtcomes⟩ := apply_then_reload Visibility.structParser
    ⟨innerTree, []⟩ ⟨"."⟩ innerTree rfl rfl rfl innerTree_ne_link [] innerProjects
    loadProjects_innerTree distinct_innerProjects {} default default
  have hcheck : (runSource Visibility.structParser {} default .fix default .never
      (.ok innerProjects)).toOption.all (fun o =>
        (perform attempt (o.documentCalls innerProjects) ⟨innerTree, []⟩).error.isNone &&
          o.projects.map (·.documents.map Document.text) =
            [["pub struct A;"], ["pub struct A;"]]) = true := by
    decide +kernel
  rw [sortByRoot_innerProjects] at hrun
  rw [hrun] at hcheck
  simp only [Except.toOption, Option.all_some, Bool.and_eq_true, Option.isNone_iff_eq_none,
    decide_eq_true_eq] at hcheck
  rw [sortByRoot_innerProjects] at houtcomes ⊢
  obtain ⟨-, -, reloaded, hreload, hsame⟩ := houtcomes _ outcome hrun hcheck.1
  exact ⟨outcome, reloaded, hrun, hcheck.2, hreload, hsame⟩

end PubSweep
