import PubSweep.Proofs.Files.Discovery

/-!
Patterns only take documents away.

More patterns leave some candidates out.  What is left keeps its owner, and the name of a project is
read from its manifest, which no pattern hides.  So the projects are those of before without some
documents (`projectAt_append`), and without the projects that have no candidate any more
(`loadProjects_append`).
-/

namespace PubSweep.Files

open Entry PubSweep.Path Syntax

/-- A candidate below a root, by its names: a file that is a source if it is a text, and may be
none. -/
structure IsCandidate (tree : Entry) (exclude : List Glob.Pattern) (names : List String) :
    Prop where
  file : ∃ contents, tree.get? (names.map encode) = some (.file contents)
  visited : ∀ d ∈ names.dropLast, d ≠ "target" ∧ d.toList.head? ≠ some '.'
  extension : ∃ stem, stem ≠ "" ∧ names.getLast? = some (stem ++ ".rs")
  kept : ∀ p ∈ exclude, p.matches (ofNames names).toSlashes.text = false

/-- A candidate of a project: the project is that of its owner. -/
structure IsCandidateOf (tree : Entry) (root : Path) (exclude : List Glob.Pattern)
    (names : List String) (p : Project) : Prop extends IsCandidate tree exclude names where
  owner : ∃ owner, IsOwner tree names owner ∧
    p.root.components = root.components ++ owner.map .name

/-- Whether a path is an instance of some pattern; backslashes count as slashes. -/
def isMatched (patterns : List Glob.Pattern) (path : Path) : Bool :=
  patterns.any (·.matches path.toSlashes.text)

/-- What a path adds to a root. -/
def pathBelow (root path : Path) : Path :=
  ofNames ((path.components.drop root.components.length).map Component.text)

/-- A project without the documents whose paths below a root are instances of some pattern. -/
def withoutMatched (root : Path) (patterns : List Glob.Pattern) (p : Project) : Project :=
  { p with documents := p.documents.filter fun d =>
      !isMatched patterns (pathBelow root (p.root.join d.path)) }

theorem pathBelow_eq {root path : Path} {names : List String}
    (h : path.components = root.components ++ names.map .name) :
    pathBelow root path = ofNames names := by
  have hnames : Component.text ∘ Component.name = id := rfl
  rw [pathBelow, h, List.drop_left, List.map_map, hnames, List.map_id]

/-! ### Patterns -/

theorem mapM_parse?_append {texts more : List String} {exclude patterns : List Glob.Pattern}
    (hexclude : texts.mapM Glob.parse? = some exclude)
    (hpatterns : more.mapM Glob.parse? = some patterns) :
    (texts ++ more).mapM Glob.parse? = some (exclude ++ patterns) := by
  rw [List.mapM_append, hexclude, hpatterns]
  rfl

/-- More patterns leave those sources that none of them matches. -/
theorem sourcesOf_append (exclude patterns : List Glob.Pattern) (visited : List Visited) :
    sourcesOf (exclude ++ patterns) visited =
      (sourcesOf exclude visited).filter fun v => !isMatched patterns (ofNames v.names) := by
  rw [sourcesOf, sourcesOf, List.filter_filter]
  apply List.filter_congr
  intro v _
  rw [Visited.isSource, Visited.isSource, List.any_append, Bool.not_or, ← Bool.and_assoc,
    Bool.and_comm]
  rfl

theorem mem_sourcesOf_append {exclude patterns : List Glob.Pattern} {visited : List Visited}
    {v : Visited} :
    v ∈ sourcesOf (exclude ++ patterns) visited ↔
      v ∈ sourcesOf exclude visited ∧ isMatched patterns (ofNames v.names) = false := by
  rw [sourcesOf_append, List.mem_filter, Bool.not_eq_true']

section

variable {tree : Entry} (hsound : tree.isSound = true) {exclude : List Glob.Pattern}

include hsound

/-- The candidates are the sources among the visited files. -/
theorem isCandidate_iff {names : List String} :
    IsCandidate tree exclude names ↔ ∃ v ∈ sourcesOf exclude (visitedFiles tree),
      v.names = names := by
  constructor
  · intro h
    obtain ⟨contents, hfile⟩ := h.file
    have hvisited : (⟨names, contents⟩ : Visited) ∈ visitedFiles tree := by
      rw [mem_visitedFiles_iff hsound, fileAt_eq_some_iff]
      exact ⟨hfile, fun d hd => isSkipped_encode_eq_false_iff.mpr (h.visited d hd)⟩
    refine ⟨_, List.mem_filter.mpr ⟨hvisited, ?_⟩, rfl⟩
    exact (isSource_iff (isName_of_mem_visitedFiles hsound hvisited)).mpr ⟨h.extension, h.kept⟩
  · rintro ⟨v, hv, rfl⟩
    obtain ⟨hvisited, hsource⟩ := List.mem_filter.mp hv
    obtain ⟨hextension, hkept⟩ :=
      (isSource_iff (isName_of_mem_visitedFiles hsound hvisited)).mp hsource
    rw [mem_visitedFiles_iff hsound, fileAt_eq_some_iff] at hvisited
    exact
      { file := ⟨v.contents, hvisited.1⟩
        visited := fun d hd => isSkipped_encode_eq_false_iff.mp (hvisited.2 d hd)
        extension := hextension
        kept := hkept }

/-! ### Projects -/

variable (hdirectory : tree.isDirectory = true) {parser : Parser} {fs : FileSystem} {root : Path}
  (hroot : root.text ≠ "") {patterns : List Glob.Pattern}

include hdirectory hroot

/-- The path of a document below the root is that of its source. -/
theorem pathBelow_document {owner : List String} {v : Visited}
    (hv : v ∈ sourcesOf exclude (visitedFiles tree))
    (howner : ownerOf (visitedFiles tree) v = owner) {d : Document}
    (hd : documentOf parser fs root owner v = some d) :
    pathBelow root ((rootOf root owner).join d.path) = ofNames v.names := by
  subst howner
  exact pathBelow_eq (components_join_documentOf hsound hdirectory hroot hv hd)

/-- More patterns take documents away from the project of a directory, and nothing else. -/
theorem projectAt_append (owner : List String) :
    projectAt parser fs root (exclude ++ patterns) (visitedFiles tree) owner =
      withoutMatched root patterns
        (projectAt parser fs root exclude (visitedFiles tree) owner) := by
  have hdocuments :
      (projectAt parser fs root (exclude ++ patterns) (visitedFiles tree) owner).documents =
        (withoutMatched root patterns
          (projectAt parser fs root exclude (visitedFiles tree) owner)).documents := by
    refine Path.eq_of_mem_iff (pairwise_documents_projectAt hsound hdirectory owner)
      ((pairwise_documents_projectAt hsound hdirectory owner).filter _) ?_
    intro d
    rw [mem_documents_projectAt, withoutMatched, List.mem_filter, mem_documents_projectAt,
      Bool.not_eq_true']
    constructor
    · rintro ⟨v, hv, howner, hd⟩
      obtain ⟨hv, hkept⟩ := mem_sourcesOf_append.mp hv
      refine ⟨⟨v, hv, howner, hd⟩, ?_⟩
      rw [← pathBelow_document hsound hdirectory hroot hv howner hd] at hkept
      exact hkept
    · rintro ⟨⟨v, hv, howner, hd⟩, hkept⟩
      refine ⟨v, mem_sourcesOf_append.mpr ⟨hv, ?_⟩, howner, hd⟩
      rw [← pathBelow_document hsound hdirectory hroot hv howner hd]
      exact hkept
  exact congrArg (Project.mk _ _) hdocuments

/-- Whether a project is that of the owner of some source. -/
def hasSource (root : Path) (exclude : List Glob.Pattern) (visited : List Visited) (p : Project) :
    Bool :=
  (sourcesOf exclude visited).any fun v => rootOf root (ownerOf visited v) = p.root

/-- The project of an owner has a source if there is one with that owner. -/
theorem hasSource_projectAt {v : Visited} (hv : v ∈ sourcesOf exclude (visitedFiles tree)) :
    hasSource root (exclude ++ patterns) (visitedFiles tree)
        (projectAt parser fs root exclude (visitedFiles tree) (ownerOf (visitedFiles tree) v)) =
          true ↔
      ∃ w ∈ sourcesOf (exclude ++ patterns) (visitedFiles tree),
        ownerOf (visitedFiles tree) w = ownerOf (visitedFiles tree) v := by
  rw [hasSource, List.any_eq_true]
  constructor
  · rintro ⟨w, hw, hsame⟩
    refine ⟨w, hw, eq_of_components_rootOf hroot (isName_of_mem_ownerOf hsound hdirectory hw)
      (isName_of_mem_ownerOf hsound hdirectory hv) ?_⟩
    exact congrArg Path.components (of_decide_eq_true hsame)
  · rintro ⟨w, hw, howner⟩
    exact ⟨w, hw, decide_eq_true (congrArg (rootOf root) howner)⟩

/-- The candidates of a project are the sources with its owner. -/
theorem isCandidateOf_projectAt {names : List String} {v : Visited}
    (hv : v ∈ sourcesOf exclude (visitedFiles tree)) :
    IsCandidateOf tree root exclude names
        (projectAt parser fs root exclude (visitedFiles tree) (ownerOf (visitedFiles tree) v)) ↔
      ∃ w ∈ sourcesOf exclude (visitedFiles tree), w.names = names ∧
        ownerOf (visitedFiles tree) w = ownerOf (visitedFiles tree) v := by
  have hcomponents := components_rootOf hroot (isName_of_mem_ownerOf hsound hdirectory hv)
  constructor
  · rintro ⟨hcandidate, owner, howner, hsame⟩
    obtain ⟨w, hw, rfl⟩ := (isCandidate_iff hsound).mp hcandidate
    refine ⟨w, hw, rfl, ?_⟩
    rw [(isOwner_ownerOf hsound hdirectory (List.mem_filter.mp hw).1).unique howner]
    exact name_injective.list_map (List.append_cancel_left (hsame.symm.trans hcomponents))
  · rintro ⟨w, hw, rfl, howner⟩
    rw [← howner] at hcomponents
    exact ⟨(isCandidate_iff hsound).mpr ⟨w, hw, rfl⟩, _,
      isOwner_ownerOf hsound hdirectory (List.mem_filter.mp hw).1, howner ▸ hcomponents⟩

/-- With more patterns, the projects are those that still have a source, without the documents that
are matched. -/
theorem projectsOf_append :
    projectsOf parser fs root (exclude ++ patterns) (visitedFiles tree) =
      ((projectsOf parser fs root exclude (visitedFiles tree)).filter
        (hasSource root (exclude ++ patterns) (visitedFiles tree))).map
          (withoutMatched root patterns) := by
  refine Path.eq_of_mem_iff (pairwise_projectsOf hsound hdirectory hroot)
    (List.pairwise_map.mpr ((pairwise_projectsOf hsound hdirectory hroot).filter _)) ?_
  intro p
  rw [mem_projectsOf, List.mem_map]
  constructor
  · rintro ⟨v, hv, rfl⟩
    have hold := (mem_sourcesOf_append.mp hv).1
    refine ⟨_, List.mem_filter.mpr ⟨mem_projectsOf.mpr ⟨v, hold, rfl⟩, ?_⟩,
      (projectAt_append hsound hdirectory hroot _).symm⟩
    exact (hasSource_projectAt hsound hdirectory hroot hold).mpr ⟨v, hv, rfl⟩
  · rintro ⟨q, hq, rfl⟩
    obtain ⟨hmem, hkeep⟩ := List.mem_filter.mp hq
    obtain ⟨v, hv, rfl⟩ := mem_projectsOf.mp hmem
    obtain ⟨w, hw, howner⟩ := (hasSource_projectAt hsound hdirectory hroot hv).mp hkeep
    exact ⟨w, hw, by rw [projectAt_append hsound hdirectory hroot, howner]⟩

end

/-- More patterns only take documents away.  With some more, the projects below a root are those of
before that still have a candidate; each of them keeps its name, its root and those of its documents
that the new patterns do not match. -/
theorem loadProjects_append (parser : Parser) (fs : FileSystem) (root : Path) (tree : Entry)
    (htree : fs.entry? root = some tree) (hdirectory : tree.isDirectory = true)
    (hsound : tree.isSound = true) (texts more : List String)
    (exclude patterns : List Glob.Pattern) (hexclude : texts.mapM Glob.parse? = some exclude)
    (hpatterns : more.mapM Glob.parse? = some patterns) :
    ∃ (projects : List Project) (keep : Project → Bool),
      loadProjects parser fs root texts = .ok projects ∧
      (∀ p ∈ projects, keep p = true ↔ ∃ names, IsCandidateOf tree root exclude names p ∧
        isMatched patterns (ofNames names) = false) ∧
      loadProjects parser fs root (texts ++ more) =
        .ok ((projects.filter keep).map (withoutMatched root patterns)) := by
  have hroot := text_ne_empty_of_entry? htree
  refine ⟨_, hasSource root (exclude ++ patterns) (visitedFiles tree),
    loadProjects_eq htree hdirectory (patterns?_eq_ok hexclude), ?_, ?_⟩
  · intro p hp
    obtain ⟨v, hv, rfl⟩ := mem_projectsOf.mp hp
    rw [hasSource_projectAt hsound hdirectory hroot hv]
    simp only [isCandidateOf_projectAt hsound hdirectory hroot hv]
    constructor
    · rintro ⟨w, hw, howner⟩
      obtain ⟨hw, hkept⟩ := mem_sourcesOf_append.mp hw
      exact ⟨w.names, ⟨w, hw, rfl, howner⟩, hkept⟩
    · rintro ⟨_, ⟨w, hw, rfl, howner⟩, hkept⟩
      exact ⟨w, mem_sourcesOf_append.mpr ⟨hw, hkept⟩, howner⟩
  · rw [loadProjects_eq htree hdirectory
      (patterns?_eq_ok (mapM_parse?_append hexclude hpatterns)),
      projectsOf_append hsound hdirectory hroot]

/-- A tree of three projects.  One of them has a file that is no text. -/
def workspaceTree : Entry :=
  .directory
    [(encode "Cargo.toml", .file []), (encode "a.rs", .file (encode "struct A;")),
      (encode "gen", .directory
        [(encode "Cargo.toml", .file []), (encode "d.rs", .file (encode "struct D;"))]),
      (encode "member", .directory
        [(encode "Cargo.toml", .file []),
          (encode "src", .directory
            [(encode "b.rs", .file (encode "struct B;")), (encode "c.rs", .file [255])])])]

/-- Patterns for a whole project, for a manifest, and for the one source of a project that is a
text. -/
def workspaceExclude : List String := ["gen/**", "member/Cargo.toml", "member/src/b.rs"]

theorem length_projectsOf (parser : Parser) (fs : FileSystem) (root : Path)
    (exclude : List Glob.Pattern) (visited : List Visited) :
    (projectsOf parser fs root exclude visited).length =
      (distinctOwners ((sourcesOf exclude visited).map (ownerOf visited))).length := by
  rw [projectsOf_eq, List.length_mergeSort, List.length_map]

/-- The project of the first pattern is left out.  The other two stay, one of them with no
document. -/
theorem loadProjects_append_workspace :
    ∃ patterns projects, ∃ keep : Project → Bool,
      workspaceExclude.mapM Glob.parse? = some patterns ∧
      loadProjects default ⟨workspaceTree, []⟩ ⟨"."⟩ [] = .ok projects ∧ projects.length = 3 ∧
      loadProjects default ⟨workspaceTree, []⟩ ⟨"."⟩ workspaceExclude =
        .ok ((projects.filter keep).map (withoutMatched ⟨"."⟩ patterns)) ∧
      (projects.filter keep).length = 2 := by
  have hpatterns : workspaceExclude.mapM Glob.parse? =
      some (workspaceExclude.filterMap Glob.parse?) := by
    decide +kernel
  obtain ⟨projects, keep, hload, -, hmore⟩ := loadProjects_append default ⟨workspaceTree, []⟩ ⟨"."⟩
    workspaceTree rfl rfl rfl [] workspaceExclude [] _ rfl hpatterns
  refine ⟨_, projects, keep, hpatterns, hload, ?_, hmore, ?_⟩
  · rw [loadProjects_eq rfl rfl rfl] at hload
    rw [← Except.ok.inj hload, length_projectsOf]
    decide +kernel
  · rw [List.nil_append, loadProjects_eq rfl rfl (patterns?_eq_ok hpatterns)] at hmore
    have hlength := congrArg List.length (Except.ok.inj hmore)
    rw [length_projectsOf, List.length_map] at hlength
    rw [← hlength]
    decide +kernel

end PubSweep.Files
