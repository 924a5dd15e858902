import Mathlib.Data.List.Dedup
import PubSweep.Proofs.Files.Visited
import PubSweep.Proofs.Path.Order

/-!
What is found below a root.

`mem_sourcesOf_iff` says which files are sources, `isOwner_ownerOf` to which directory a source
belongs, and `mem_projectsOf_iff` which documents there are.  `loadProjects_partition` puts it
together: the sources are split into the projects, each with its documents.
-/

namespace PubSweep.Files

open Entry PubSweep.Path Syntax

/-! ### Sources -/

/-- A source file below a root, by its names and its text: its name has the extension, no directory
on the way to it is left out, and no pattern takes it out. -/
structure IsSourceFile (tree : Entry) (exclude : List Glob.Pattern) (names : List String)
    (text : String) : Prop where
  file : tree.get? (names.map encode) = some (.file (encode text))
  visited : ∀ d ∈ names.dropLast, d ≠ "target" ∧ d.toList.head? ≠ some '.'
  extension : ∃ stem, stem ≠ "" ∧ names.getLast? = some (stem ++ ".rs")
  kept : ∀ p ∈ exclude, p.matches (ofNames names).toSlashes.text = false

theorem isSkipped_encode_eq_false_iff {d : String} :
    isSkipped (encode d) = false ↔ d ≠ "target" ∧ d.toList.head? ≠ some '.' := by
  simp [isSkipped, encode_injective.eq_iff, head?_encode_eq_dot_iff]

theorem extension_path_iff {v : Visited} (h : ∀ s ∈ v.names, IsName s) :
    v.path.extension = some "rs" ↔
      ∃ stem, stem ≠ "" ∧ v.names.getLast? = some (stem ++ ".rs") := by
  have hpath : v.path = ofNames v.names := rfl
  rw [extension_eq_some_iff (by decide), hpath, fileName_ofNames h]
  simp only [String.append_assoc]
  rfl

/-- No source file is a manifest. -/
theorem isManifest_eq_false {v : Visited} {stem : String}
    (h : v.names.getLast? = some (stem ++ ".rs")) : v.isManifest = false := by
  rw [Visited.isManifest, h, decide_eq_false_iff_not, Option.some.injEq]
  intro heq
  have hlast := congrArg (fun s : String => s.toList.getLast?) heq
  simp [manifestName] at hlast

section

variable (exclude : List Glob.Pattern) (visited : List Visited)

/-- The sources among the visited files. -/
def sourcesOf : List Visited := visited.filter (·.isSource exclude)

/-- The directories with a manifest. -/
def manifestDirectories : List (List String) :=
  (visited.filter (·.isManifest)).map (·.names.dropLast)

/-- The directory that a file belongs to. -/
def ownerOf (v : Visited) : List String := nearest (manifestDirectories visited) v.names

end

/-- A visited file is a source if its name has the extension and no pattern takes it out. -/
theorem isSource_iff {exclude : List Glob.Pattern} {v : Visited} (h : ∀ s ∈ v.names, IsName s) :
    v.isSource exclude = true ↔
      (∃ stem, stem ≠ "" ∧ v.names.getLast? = some (stem ++ ".rs")) ∧
        ∀ p ∈ exclude, p.matches (ofNames v.names).toSlashes.text = false := by
  rw [Visited.isSource, Bool.and_eq_true, Bool.and_eq_true, decide_eq_true_eq,
    extension_path_iff h, Bool.not_eq_true', Bool.not_eq_true', List.any_eq_false]
  constructor
  · rintro ⟨⟨-, hextension⟩, hkept⟩
    exact ⟨hextension, fun p hp => Bool.eq_false_iff.mpr (hkept p hp)⟩
  · rintro ⟨⟨stem, hstem, hlast⟩, hkept⟩
    exact ⟨⟨isManifest_eq_false hlast, stem, hstem, hlast⟩,
      fun p hp => Bool.eq_false_iff.mp (hkept p hp)⟩

theorem mem_sourcesOf_iff {tree : Entry} (h : tree.isSound = true) {exclude : List Glob.Pattern}
    {names : List String} {text : String} :
    ⟨names, encode text⟩ ∈ sourcesOf exclude (visitedFiles tree) ↔
      IsSourceFile tree exclude names text := by
  rw [sourcesOf, List.mem_filter]
  constructor
  · rintro ⟨hvisited, hsource⟩
    obtain ⟨hextension, hkept⟩ := (isSource_iff (isName_of_mem_visitedFiles h hvisited)).mp hsource
    rw [mem_visitedFiles_iff h, fileAt_eq_some_iff] at hvisited
    exact
      { file := hvisited.1
        visited := fun d hd => isSkipped_encode_eq_false_iff.mp (hvisited.2 d hd)
        extension := hextension
        kept := hkept }
  · intro hfile
    have hvisited : (⟨names, encode text⟩ : Visited) ∈ visitedFiles tree := by
      rw [mem_visitedFiles_iff h, fileAt_eq_some_iff]
      exact ⟨hfile.file, fun d hd => isSkipped_encode_eq_false_iff.mpr (hfile.visited d hd)⟩
    exact ⟨hvisited, (isSource_iff (isName_of_mem_visitedFiles h hvisited)).mpr
      ⟨hfile.extension, hfile.kept⟩⟩

/-! ### Owners -/

/-- A directory, by its names, with a manifest in it. -/
def HoldsManifest (tree : Entry) (directory : List String) : Prop :=
  ∃ contents, tree.get? ((directory ++ [manifestName]).map encode) = some (.file contents)

/-- The directory that a file belongs to: of those above the file, the deepest with a manifest, or
the root if there is none. -/
structure IsOwner (tree : Entry) (names owner : List String) : Prop where
  above : ∃ rest, rest ≠ [] ∧ names = owner ++ rest
  manifest : owner = [] ∨ HoldsManifest tree owner
  deepest : ∀ directory rest, rest ≠ [] → names = directory ++ rest →
    HoldsManifest tree directory → directory.length ≤ owner.length

theorem IsOwner.length_le {tree : Entry} {names owner other : List String}
    (h : IsOwner tree names owner) (hother : IsOwner tree names other) :
    owner.length ≤ other.length := by
  rcases h.manifest with rfl | hholds
  · exact Nat.zero_le _
  · obtain ⟨rest, hne, hnames⟩ := h.above
    exact hother.deepest owner rest hne hnames hholds

/-- A file has one owner. -/
theorem IsOwner.unique {tree : Entry} {names owner other : List String}
    (h : IsOwner tree names owner) (hother : IsOwner tree names other) : owner = other := by
  obtain ⟨rest, -, hnames⟩ := h.above
  obtain ⟨rest', -, hnames'⟩ := hother.above
  exact List.append_inj_left (hnames.symm.trans hnames')
    (Nat.le_antisymm (h.length_le hother) (hother.length_le h))

/-- The longest of some lists, and of one to start with. -/
theorem foldl_longest (directories : List (List String)) (best : List String) :
    let longest := directories.foldl (fun best d => if best.length ≤ d.length then d else best) best
    (longest = best ∨ longest ∈ directories) ∧ best.length ≤ longest.length ∧
      ∀ d ∈ directories, d.length ≤ longest.length := by
  induction directories generalizing best with
  | nil => simp
  | cons d ds ih =>
      obtain ⟨hmem, hbest, hall⟩ := ih (if best.length ≤ d.length then d else best)
      simp only [List.foldl_cons, List.mem_cons, forall_eq_or_imp]
      by_cases hle : best.length ≤ d.length
      · simp only [if_pos hle] at hmem hbest hall ⊢
        exact ⟨Or.inr hmem, Nat.le_trans hle hbest, hbest, hall⟩
      · simp only [if_neg hle] at hmem hbest hall ⊢
        exact ⟨hmem.imp_right Or.inr, hbest, by omega, hall⟩

/-- The nearest directory is the longest of those above a file. -/
theorem nearest_spec (directories : List (List String)) (names : List String) :
    (nearest directories names = [] ∨ nearest directories names ∈ directories) ∧
      nearest directories names <+: names ∧
      ∀ d ∈ directories, d <+: names → d.length ≤ (nearest directories names).length := by
  obtain ⟨hmem, -, hall⟩ := foldl_longest (directories.filter (·.isPrefixOf names)) []
  rw [nearest]
  refine ⟨hmem.imp_right fun h => (List.mem_filter.mp h).1, ?_, ?_⟩
  · rcases hmem with hnil | hmem
    · rw [hnil]
      exact List.nil_prefix
    · exact List.isPrefixOf_iff_prefix.mp (List.mem_filter.mp hmem).2
  · intro d hd hprefix
    exact hall d (List.mem_filter.mpr ⟨hd, List.isPrefixOf_iff_prefix.mpr hprefix⟩)

theorem mem_manifestDirectories_iff {tree : Entry} (h : tree.isSound = true)
    {directory : List String} :
    directory ∈ manifestDirectories (visitedFiles tree) ↔
      HoldsManifest tree directory ∧ ∀ d ∈ directory, isSkipped (encode d) = false := by
  rw [manifestDirectories, List.mem_map]
  constructor
  · rintro ⟨v, hv, rfl⟩
    obtain ⟨hvisited, hmanifest⟩ := List.mem_filter.mp hv
    rw [mem_visitedFiles_iff h, fileAt_eq_some_iff] at hvisited
    rw [Visited.isManifest, decide_eq_true_eq, List.getLast?_eq_some_iff] at hmanifest
    obtain ⟨above, habove⟩ := hmanifest
    rw [habove] at hvisited ⊢
    rw [List.dropLast_concat] at hvisited ⊢
    exact ⟨⟨v.contents, hvisited.1⟩, hvisited.2⟩
  · rintro ⟨⟨contents, hfile⟩, hskip⟩
    refine ⟨⟨directory ++ [manifestName], contents⟩, List.mem_filter.mpr ⟨?_, ?_⟩, ?_⟩
    · rw [mem_visitedFiles_iff h, fileAt_eq_some_iff, List.dropLast_concat]
      exact ⟨hfile, hskip⟩
    · simp [Visited.isManifest]
    · exact List.dropLast_concat

/-- Nothing is below a file. -/
theorem eq_nil_of_get?_append {e found : Entry} {location rest : Location} {contents : List UInt8}
    (hfile : e.get? location = some (.file contents))
    (h : e.get? (location ++ rest) = some found) : rest = [] := by
  rw [get?_append, hfile] at h
  cases rest with
  | nil => rfl
  | cons name rest => cases h

/-- A visited file belongs to its owner. -/
theorem isOwner_ownerOf {tree : Entry} (h : tree.isSound = true)
    (hdirectory : tree.isDirectory = true) {v : Visited} (hv : v ∈ visitedFiles tree) :
    IsOwner tree v.names (ownerOf (visitedFiles tree) v) := by
  obtain ⟨hmem, ⟨rest, hrest⟩, hlongest⟩ :=
    nearest_spec (manifestDirectories (visitedFiles tree)) v.names
  rw [mem_visitedFiles_iff h, fileAt_eq_some_iff] at hv
  have hmanifest := hmem.imp_right fun hd => ((mem_manifestDirectories_iff h).mp hd).1
  refine ⟨⟨rest, ?_, hrest.symm⟩, hmanifest, ?_⟩
  · rintro rfl
    rw [List.append_nil] at hrest
    rw [hrest] at hmanifest
    rcases hmanifest with hnil | ⟨contents, hcontents⟩
    · rw [hnil] at hv
      cases Option.some.inj hv.1
      cases hdirectory
    · rw [List.map_append] at hcontents
      simpa using eq_nil_of_get?_append hv.1 hcontents
  · intro directory rest hne hnames hholds
    refine hlongest directory ?_ ⟨rest, hnames.symm⟩
    rw [mem_manifestDirectories_iff h]
    refine ⟨hholds, fun d hd => hv.2 d ?_⟩
    rw [hnames, List.dropLast_append_of_ne_nil hne]
    exact List.mem_append_left _ hd

/-! ### Projects -/

theorem distinctOwners_eq_dedup (owners : List (List String)) :
    distinctOwners owners = owners.dedup := by
  induction owners with
  | nil => rfl
  | cons d ds ih =>
      have hcons : distinctOwners (d :: ds) = if (distinctOwners ds).contains d
          then distinctOwners ds else d :: distinctOwners ds := rfl
      rw [hcons, ih]
      by_cases hd : d ∈ ds
      · rw [List.dedup_cons_of_mem hd, if_pos (by simpa using hd)]
      · rw [List.dedup_cons_of_notMem hd, if_neg (by simpa using hd)]

theorem name_injective : Function.Injective Component.name := fun _ _ h => Component.name.inj h

/-- The root of the project of a directory. -/
def rootOf (root : Path) (owner : List String) : Path :=
  if owner.isEmpty then root else root.join (ofNames owner)

theorem components_rootOf {root : Path} (hroot : root.text ≠ "") {owner : List String}
    (h : ∀ s ∈ owner, IsName s) :
    (rootOf root owner).components = root.components ++ owner.map .name := by
  cases owner with
  | nil => simp [rootOf]
  | cons first rest => exact components_join hroot (List.cons_ne_nil first rest) h

/-- Different directories are the roots of different projects. -/
theorem eq_of_components_rootOf {root : Path} (hroot : root.text ≠ "") {owner other : List String}
    (howner : ∀ s ∈ owner, IsName s) (hother : ∀ s ∈ other, IsName s)
    (h : (rootOf root owner).components = (rootOf root other).components) : owner = other := by
  rw [components_rootOf hroot howner, components_rootOf hroot hother,
    List.append_cancel_left_eq] at h
  exact name_injective.list_map h

theorem text_rootOf_ne_empty {root : Path} (hroot : root.text ≠ "") {owner : List String}
    (h : ∀ s ∈ owner, IsName s) : (rootOf root owner).text ≠ "" := by
  cases owner with
  | nil => exact hroot
  | cons first rest => exact text_join_ne_empty hroot (isAbsolute_ofNames h)

section

variable (parser : Parser) (fs : FileSystem) (root : Path) (exclude : List Glob.Pattern)
  (visited : List Visited)

/-- The document of a source file; none if it is no text. -/
def documentOf (owner : List String) (v : Visited) : Option Document :=
  (decode? v.contents).map fun text =>
    Document.parse parser (projectName fs (rootOf root owner))
      (ofNames (v.names.drop owner.length)) text

/-- The project of a directory, with the sources that belong to it. -/
def projectAt (owner : List String) : Project :=
  projectOf parser fs root owner
    ((sourcesOf exclude visited).filter (ownerOf visited · = owner))

theorem projectAt_eq (owner : List String) :
    projectAt parser fs root exclude visited owner =
      .ofDocuments (projectName fs (rootOf root owner)) (rootOf root owner)
        (((sourcesOf exclude visited).filter (ownerOf visited · = owner)).filterMap
          (documentOf parser fs root owner)) := rfl

theorem projectsOf_eq :
    projectsOf parser fs root exclude visited =
      ((distinctOwners ((sourcesOf exclude visited).map (ownerOf visited))).map
        (projectAt parser fs root exclude visited)).mergeSort
          fun a b => (a.root.compare b.root).isLE := rfl

variable {parser fs root exclude visited}

theorem mem_projectsOf {p : Project} :
    p ∈ projectsOf parser fs root exclude visited ↔ ∃ v ∈ sourcesOf exclude visited,
      p = projectAt parser fs root exclude visited (ownerOf visited v) := by
  rw [projectsOf_eq, List.mem_mergeSort, List.mem_map]
  simp only [distinctOwners_eq_dedup, List.mem_dedup]
  constructor
  · rintro ⟨owner, howner, rfl⟩
    obtain ⟨v, hv, rfl⟩ := List.mem_map.mp howner
    exact ⟨v, hv, rfl⟩
  · rintro ⟨v, hv, rfl⟩
    exact ⟨_, List.mem_map_of_mem hv, rfl⟩

theorem mem_documents_projectAt {owner : List String} {d : Document} :
    d ∈ (projectAt parser fs root exclude visited owner).documents ↔
      ∃ v ∈ sourcesOf exclude visited, ownerOf visited v = owner ∧
        documentOf parser fs root owner v = some d := by
  rw [projectAt_eq, Project.ofDocuments, List.mem_mergeSort, List.mem_filterMap]
  simp only [List.mem_filter, decide_eq_true_eq, and_assoc]

end

section

variable {tree : Entry} (hsound : tree.isSound = true) (hdirectory : tree.isDirectory = true)
  {exclude : List Glob.Pattern}

include hsound in
theorem isName_of_mem_sourcesOf {v : Visited} (hv : v ∈ sourcesOf exclude (visitedFiles tree)) :
    ∀ s ∈ v.names, IsName s :=
  isName_of_mem_visitedFiles hsound (List.mem_filter.mp hv).1

include hsound hdirectory

/-- The names of a source are those of its owner and at least one more. -/
theorem names_eq_of_mem_sourcesOf {v : Visited}
    (hv : v ∈ sourcesOf exclude (visitedFiles tree)) :
    ∃ rest, rest ≠ [] ∧ v.names = ownerOf (visitedFiles tree) v ++ rest :=
  (isOwner_ownerOf hsound hdirectory (List.mem_filter.mp hv).1).above

theorem isName_of_mem_ownerOf {v : Visited} (hv : v ∈ sourcesOf exclude (visitedFiles tree)) :
    ∀ s ∈ ownerOf (visitedFiles tree) v, IsName s := by
  obtain ⟨rest, -, hnames⟩ := names_eq_of_mem_sourcesOf hsound hdirectory hv
  intro s hs
  apply isName_of_mem_sourcesOf hsound hv
  rw [hnames]
  exact List.mem_append_left rest hs

variable {parser : Parser} {fs : FileSystem} {root : Path}

/-- The path of the document of a source leads from its owner to it. -/
theorem path_of_documentOf {v : Visited} (hv : v ∈ sourcesOf exclude (visitedFiles tree))
    {d : Document} (hd : documentOf parser fs root (ownerOf (visitedFiles tree) v) v = some d) :
    ∃ rest, rest ≠ [] ∧ (∀ s ∈ rest, IsName s) ∧
      v.names = ownerOf (visitedFiles tree) v ++ rest ∧ d.path = ofNames rest := by
  obtain ⟨text, -, rfl⟩ := Option.map_eq_some_iff.mp hd
  obtain ⟨rest, hne, hnames⟩ := names_eq_of_mem_sourcesOf hsound hdirectory hv
  refine ⟨rest, hne, ?_, hnames, ?_⟩
  · intro s hs
    apply isName_of_mem_sourcesOf hsound hv
    rw [hnames]
    exact List.mem_append_right _ hs
  · change ofNames (v.names.drop _) = _
    rw [hnames, List.drop_left]

/-- The documents of a project go strictly up by their paths. -/
theorem pairwise_documents_projectAt (owner : List String) :
    (projectAt parser fs root exclude (visitedFiles tree) owner).documents.Pairwise fun a b =>
      a.path.compare b.path = .lt := by
  rw [projectAt_eq, Project.ofDocuments]
  apply pairwise_lt_mergeSort Document.path
  rw [List.pairwise_filterMap, List.pairwise_filter]
  have hdistinct := (pairwise_visitedFiles hsound).filter (·.isSource exclude)
  refine hdistinct.imp_of_mem ?_
  intro v w hv hw hne hvOwner hwOwner d hd e he heq
  rw [decide_eq_true_eq] at hvOwner hwOwner
  obtain ⟨vrest, -, hvrest, hvnames, hdpath⟩ :=
    path_of_documentOf hsound hdirectory hv (hvOwner.symm ▸ hd)
  obtain ⟨wrest, -, hwrest, hwnames, hepath⟩ :=
    path_of_documentOf hsound hdirectory hw (hwOwner.symm ▸ he)
  rw [hdpath, hepath, components_ofNames hvrest, components_ofNames hwrest] at heq
  rw [hvnames, hwnames, hvOwner, hwOwner, name_injective.list_map heq] at hne
  exact hne rfl

variable (hroot : root.text ≠ "")

include hroot

/-- The projects of a tree go strictly up by their roots. -/
theorem pairwise_projectsOf :
    (projectsOf parser fs root exclude (visitedFiles tree)).Pairwise fun a b =>
      a.root.compare b.root = .lt := by
  rw [projectsOf_eq]
  apply pairwise_lt_mergeSort Project.root
  rw [List.pairwise_map, distinctOwners_eq_dedup]
  refine (List.nodup_dedup _).imp_of_mem ?_
  intro a b ha hb hne heq
  rw [List.mem_dedup, List.mem_map] at ha hb
  obtain ⟨v, hv, rfl⟩ := ha
  obtain ⟨w, hw, rfl⟩ := hb
  exact hne (eq_of_components_rootOf hroot (isName_of_mem_ownerOf hsound hdirectory hv)
    (isName_of_mem_ownerOf hsound hdirectory hw) heq)

/-- The path of a project and the path of a document in it lead to the source. -/
theorem components_join_documentOf {v : Visited}
    (hv : v ∈ sourcesOf exclude (visitedFiles tree)) {d : Document}
    (hd : documentOf parser fs root (ownerOf (visitedFiles tree) v) v = some d) :
    ((rootOf root (ownerOf (visitedFiles tree) v)).join d.path).components =
      root.components ++ v.names.map .name := by
  have howner := isName_of_mem_ownerOf hsound hdirectory hv
  obtain ⟨rest, hne, hrest, hnames, hpath⟩ := path_of_documentOf hsound hdirectory hv hd
  rw [hpath, components_join (text_rootOf_ne_empty hroot howner) hne hrest,
    components_rootOf hroot howner, hnames]
  simp

end

/-! ### Loading -/

theorem patterns?_eq_ok {texts : List String} {exclude : List Glob.Pattern}
    (h : texts.mapM Glob.parse? = some exclude) : patterns? texts = .ok exclude := by
  induction texts generalizing exclude with
  | nil =>
      cases Option.some.inj h
      rfl
  | cons text texts ih =>
      rw [List.mapM_cons, Option.bind_eq_bind, Option.bind_eq_some_iff] at h
      obtain ⟨pattern, hpattern, h⟩ := h
      rw [Option.bind_eq_bind, Option.bind_eq_some_iff] at h
      obtain ⟨rest, hrest, heq⟩ := h
      cases Option.some.inj heq
      rw [patterns?, hpattern]
      simp only [ih hrest]
      rfl

theorem exists_patterns {parser : Parser} {fs : FileSystem} {root : Path} {texts : List String}
    {projects : List Project} (h : loadProjects parser fs root texts = .ok projects) :
    ∃ exclude, patterns? texts = .ok exclude := by
  cases hpatterns : patterns? texts with
  | error e =>
      rw [loadProjects, hpatterns] at h
      cases h
  | ok exclude => exact ⟨exclude, rfl⟩

theorem text_ne_empty_of_entry? {fs : FileSystem} {root : Path} {tree : Entry}
    (h : fs.entry? root = some tree) : root.text ≠ "" := by
  intro hempty
  rw [FileSystem.entry?, FileSystem.locate, if_pos hempty] at h
  cases h

theorem loadProjects_eq {parser : Parser} {fs : FileSystem} {root : Path} {tree : Entry}
    (htree : fs.entry? root = some tree) (hdirectory : tree.isDirectory = true)
    {texts : List String} {exclude : List Glob.Pattern} (hexclude : patterns? texts = .ok exclude) :
    loadProjects parser fs root texts =
      .ok (projectsOf parser fs root exclude (visitedFiles tree)) := by
  cases tree with
  | file contents => cases hdirectory
  | link target => cases hdirectory
  | directory entries =>
      rw [loadProjects, hexclude, htree]
      rfl

/-- A document of a project that was read from a source file: the project is that of the owner of
the file, and the paths of both lead to the file. -/
structure LoadedFrom (tree : Entry) (root : Path) (names : List String) (text : String)
    (p : Project) (d : Document) : Prop where
  owner : ∃ owner, IsOwner tree names owner ∧
    p.root.components = root.components ++ owner.map .name
  path : (p.root.join d.path).components = root.components ++ names.map .name
  text : d.text = text

section

variable {parser : Parser} {fs : FileSystem} {root : Path} {tree : Entry}
  {exclude : List Glob.Pattern}

/-- The documents of the projects are the documents of the sources. -/
theorem exists_source_of_mem {p : Project} {d : Document} {visited : List Visited}
    (hp : p ∈ projectsOf parser fs root exclude visited) (hd : d ∈ p.documents) :
    ∃ v ∈ sourcesOf exclude visited,
      p = projectAt parser fs root exclude visited (ownerOf visited v) ∧
      documentOf parser fs root (ownerOf visited v) v = some d := by
  obtain ⟨w, -, rfl⟩ := mem_projectsOf.mp hp
  obtain ⟨v, hv, howner, hdocument⟩ := mem_documents_projectAt.mp hd
  rw [← howner] at hdocument ⊢
  exact ⟨v, hv, rfl, hdocument⟩

variable (hdirectory : tree.isDirectory = true) (hsound : tree.isSound = true)
  (hroot : root.text ≠ "")

include hdirectory hsound hroot

theorem loadedFrom_documentOf {v : Visited} (hv : v ∈ sourcesOf exclude (visitedFiles tree))
    {d : Document} (hd : documentOf parser fs root (ownerOf (visitedFiles tree) v) v = some d) :
    LoadedFrom tree root v.names d.text
      (projectAt parser fs root exclude (visitedFiles tree) (ownerOf (visitedFiles tree) v)) d where
  owner := ⟨_, isOwner_ownerOf hsound hdirectory (List.mem_filter.mp hv).1,
    components_rootOf hroot (isName_of_mem_ownerOf hsound hdirectory hv)⟩
  path := components_join_documentOf hsound hdirectory hroot hv hd
  text := rfl

/-- There is only one place among the documents from which paths lead to a given source. -/
theorem place_unique {v : Visited} {i j : Nat} {d : Document}
    (hd : documentOf parser fs root (ownerOf (visitedFiles tree) v) v = some d)
    (hi : (projectsOf parser fs root exclude (visitedFiles tree))[i]? =
      some (projectAt parser fs root exclude (visitedFiles tree) (ownerOf (visitedFiles tree) v)))
    (hj : (projectAt parser fs root exclude (visitedFiles tree)
      (ownerOf (visitedFiles tree) v)).documents[j]? = some d)
    {i' j' : Nat} {p' : Project} {d' : Document}
    (hi' : (projectsOf parser fs root exclude (visitedFiles tree))[i']? = some p')
    (hj' : p'.documents[j']? = some d')
    (hpath : (p'.root.join d'.path).components = root.components ++ v.names.map .name) :
    i' = i ∧ j' = j := by
  obtain ⟨w, hw, rfl, hd'⟩ :=
    exists_source_of_mem (List.mem_of_getElem? hi') (List.mem_of_getElem? hj')
  have hjoin := components_join_documentOf hsound hdirectory hroot hw hd'
  have hnames : w.names = v.names :=
    name_injective.list_map (List.append_cancel_left (hjoin.symm.trans hpath))
  have howner : ownerOf (visitedFiles tree) w = ownerOf (visitedFiles tree) v := by
    rw [ownerOf, hnames, ownerOf]
  rw [howner] at hi' hj' hd'
  refine ⟨index_unique (pairwise_projectsOf hsound hdirectory hroot) hi' hi rfl,
    index_unique (pairwise_documents_projectAt hsound hdirectory _) hj' hj ?_⟩
  obtain ⟨_, -, rfl⟩ := Option.map_eq_some_iff.mp hd
  obtain ⟨_, -, rfl⟩ := Option.map_eq_some_iff.mp hd'
  change (ofNames (w.names.drop _)).components = (ofNames (v.names.drop _)).components
  rw [hnames]

end

/-- The source files below a root are split into projects: the documents are those of the source
files, and each source file is one document of one project, that of its owner.  Projects and
documents come in the order of their paths. -/
theorem loadProjects_partition (parser : Parser) (fs : FileSystem) (root : Path) (tree : Entry)
    (htree : fs.entry? root = some tree) (hdirectory : tree.isDirectory = true)
    (hsound : tree.isSound = true) (texts : List String) (exclude : List Glob.Pattern)
    (hexclude : texts.mapM Glob.parse? = some exclude) :
    ∃ projects, loadProjects parser fs root texts = .ok projects ∧
      projects.Pairwise (fun a b => a.root.compare b.root = .lt) ∧
      (∀ p ∈ projects, p.documents.Pairwise fun a b => a.path.compare b.path = .lt) ∧
      (∀ p ∈ projects, ∀ d ∈ p.documents, ∃ names text,
        IsSourceFile tree exclude names text ∧ LoadedFrom tree root names text p d) ∧
      ∀ names text, IsSourceFile tree exclude names text →
        ∃ i j p d, projects[i]? = some p ∧ p.documents[j]? = some d ∧
          LoadedFrom tree root names text p d ∧
          ∀ (i' j' : Nat) (p' : Project) (d' : Document),
            projects[i']? = some p' → p'.documents[j']? = some d' →
            (p'.root.join d'.path).components = root.components ++ names.map .name →
            i' = i ∧ j' = j := by
  have hroot := text_ne_empty_of_entry? htree
  refine ⟨_, loadProjects_eq htree hdirectory (patterns?_eq_ok hexclude),
    pairwise_projectsOf hsound hdirectory hroot, ?_, ?_, ?_⟩
  · intro p hp
    obtain ⟨v, -, rfl⟩ := mem_projectsOf.mp hp
    exact pairwise_documents_projectAt hsound hdirectory _
  · intro p hp d hd
    obtain ⟨v, hv, rfl, hdocument⟩ := exists_source_of_mem hp hd
    have hloaded := loadedFrom_documentOf hdirectory hsound hroot hv hdocument
    obtain ⟨text, htext, rfl⟩ := Option.map_eq_some_iff.mp hdocument
    refine ⟨v.names, text, (mem_sourcesOf_iff hsound).mp ?_, hloaded⟩
    rw [← decode?_eq_some_iff.mp htext]
    exact hv
  · intro names text hfile
    have hv := (mem_sourcesOf_iff hsound).mpr hfile
    let owner := ownerOf (visitedFiles tree) ⟨names, encode text⟩
    have hdocument : documentOf parser fs root owner ⟨names, encode text⟩ =
        some (.parse parser (projectName fs (rootOf root owner))
          (ofNames (names.drop owner.length)) text) := by
      rw [documentOf, decode?_encode]
      rfl
    obtain ⟨i, hi⟩ := List.mem_iff_getElem?.mp (mem_projectsOf.mpr ⟨_, hv, rfl⟩)
    obtain ⟨j, hj⟩ :=
      List.mem_iff_getElem?.mp (mem_documents_projectAt.mpr ⟨_, hv, rfl, hdocument⟩)
    refine ⟨i, j, _, _, hi, hj, loadedFrom_documentOf hdirectory hsound hroot hv hdocument, ?_⟩
    intro i' j' p' d' hi' hj' hpath
    exact place_unique hdirectory hsound hroot hdocument hi hj hi' hj' hpath

/-- A tree with a project in a project. -/
def nestedTree : Entry :=
  .directory
    [(encode "Cargo.toml", .file []),
      (encode "member", .directory
        [(encode "Cargo.toml", .file []),
          (encode "src", .directory [(encode "a.rs", .file (encode "struct A;"))])]),
      (encode "target", .directory [(encode "b.rs", .file (encode "struct B;"))])]

theorem isSourceFile_nestedTree :
    IsSourceFile nestedTree [] ["member", "src", "a.rs"] "struct A;" where
  file := rfl
  visited := by decide
  extension := ⟨"a", by decide, rfl⟩
  kept := by simp

theorem loadProjects_partition_nested :
    ∃ projects, loadProjects default ⟨nestedTree, []⟩ ⟨"."⟩ [] = .ok projects ∧
      ∃ p ∈ projects, ∃ d ∈ p.documents, d.text = "struct A;" ∧
        (p.root.join d.path).components =
          [.current, .name "member", .name "src", .name "a.rs"] := by
  obtain ⟨projects, hload, -, -, -, hfiles⟩ :=
    loadProjects_partition default ⟨nestedTree, []⟩ ⟨"."⟩ nestedTree rfl rfl rfl [] [] rfl
  obtain ⟨i, j, p, d, hi, hj, hloaded, -⟩ := hfiles _ _ isSourceFile_nestedTree
  exact ⟨projects, hload, p, List.mem_of_getElem? hi, d, List.mem_of_getElem? hj, hloaded.text,
    hloaded.path⟩

end PubSweep.Files
