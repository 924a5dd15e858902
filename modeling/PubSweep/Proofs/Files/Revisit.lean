import PubSweep.Proofs.Files.Reload
import PubSweep.Proofs.Files.Retry

/-!
Loading from a file system that has grown.

The projects below a root depend on the manifests and the sources that are visited, whatever their
order (`projectsOf_congr`).  So files of other names go unnoticed, wherever they are written
(`loadProjects_grown`).  `loadProjects_renewal` says what is loaded when documents were written.
-/

namespace PubSweep.Files

open Entry PubSweep.Path Syntax

/-! ### Visited files in another order -/

theorem nearest_congr {directories directories' : List (List String)}
    (h : ∀ d, d ∈ directories' ↔ d ∈ directories) (names : List String) :
    nearest directories' names = nearest directories names := by
  obtain ⟨hmem, hprefix, hlongest⟩ := nearest_spec directories names
  obtain ⟨hmem', hprefix', hlongest'⟩ := nearest_spec directories' names
  have hle : (nearest directories names).length ≤ (nearest directories' names).length := by
    rcases hmem with hnil | hmem
    · rw [hnil]
      exact Nat.zero_le _
    · exact hlongest' _ ((h _).mpr hmem) hprefix
  have hle' : (nearest directories' names).length ≤ (nearest directories names).length := by
    rcases hmem' with hnil | hmem'
    · rw [hnil]
      exact Nat.zero_le _
    · exact hlongest _ ((h _).mp hmem') hprefix'
  exact (List.prefix_of_prefix_length_le hprefix' hprefix hle').eq_of_length_le hle

section

variable {tree tree' : Entry} {exclude : List Glob.Pattern}
  (hsame : ∀ v : Visited, v.isManifest = true ∨ v.isSource exclude = true →
    (v ∈ visitedFiles tree' ↔ v ∈ visitedFiles tree))

include hsame

theorem ownerOf_congr (v : Visited) :
    ownerOf (visitedFiles tree') v = ownerOf (visitedFiles tree) v := by
  apply nearest_congr
  intro d
  simp only [manifestDirectories, List.mem_map, List.mem_filter]
  constructor
  · rintro ⟨w, ⟨hw, hmanifest⟩, rfl⟩
    exact ⟨w, ⟨(hsame w (Or.inl hmanifest)).mp hw, hmanifest⟩, rfl⟩
  · rintro ⟨w, ⟨hw, hmanifest⟩, rfl⟩
    exact ⟨w, ⟨(hsame w (Or.inl hmanifest)).mpr hw, hmanifest⟩, rfl⟩

variable (hsound : tree.isSound = true) (hsound' : tree'.isSound = true)

include hsound hsound'

theorem sourcesOf_perm :
    (sourcesOf exclude (visitedFiles tree')).Perm (sourcesOf exclude (visitedFiles tree)) := by
  have hnodup : ∀ {e : Entry}, e.isSound = true → (sourcesOf exclude (visitedFiles e)).Nodup := by
    intro e he
    refine List.Nodup.filter _ ((pairwise_visitedFiles he).imp ?_)
    rintro v w hne rfl
    exact hne rfl
  rw [List.perm_ext_iff_of_nodup (hnodup hsound') (hnodup hsound)]
  intro v
  simp only [sourcesOf, List.mem_filter]
  constructor
  · rintro ⟨hv, hsource⟩
    exact ⟨(hsame v (Or.inr hsource)).mp hv, hsource⟩
  · rintro ⟨hv, hsource⟩
    exact ⟨(hsame v (Or.inr hsource)).mpr hv, hsource⟩

variable (hdirectory : tree.isDirectory = true) (hdirectory' : tree'.isDirectory = true)
  {parser : Parser} {fs fs' : FileSystem} {root : Path}
  (hname : ∀ owner : List String, (∀ s ∈ owner, IsName s) →
    projectName fs' (rootOf root owner) = projectName fs (rootOf root owner))

include hdirectory hdirectory' hname

theorem projectAt_congr {v : Visited} (hv : v ∈ sourcesOf exclude (visitedFiles tree)) :
    projectAt parser fs' root exclude (visitedFiles tree') (ownerOf (visitedFiles tree) v) =
      projectAt parser fs root exclude (visitedFiles tree) (ownerOf (visitedFiles tree) v) := by
  have hprojectName := hname _ (isName_of_mem_ownerOf hsound hdirectory hv)
  have hdocumentOf : documentOf parser fs' root (ownerOf (visitedFiles tree) v) =
      documentOf parser fs root (ownerOf (visitedFiles tree) v) := by
    funext w
    rw [documentOf, documentOf, hprojectName]
  have hperm : (projectAt parser fs' root exclude (visitedFiles tree')
        (ownerOf (visitedFiles tree) v)).documents.Perm
      (projectAt parser fs root exclude (visitedFiles tree)
        (ownerOf (visitedFiles tree) v)).documents := by
    rw [projectAt_eq, projectAt_eq, hdocumentOf]
    simp only [ownerOf_congr hsame]
    refine (List.mergeSort_perm _ _).trans (List.Perm.trans ?_ (List.mergeSort_perm _ _).symm)
    exact ((sourcesOf_perm hsame hsound hsound').filter _).filterMap _
  have hdocuments := eq_of_perm hperm
    (@pairwise_documents_projectAt tree' hsound' hdirectory' exclude parser fs' root
      (ownerOf (visitedFiles tree) v))
    (@pairwise_documents_projectAt tree hsound hdirectory exclude parser fs root
      (ownerOf (visitedFiles tree) v))
  rw [projectAt_eq, projectAt_eq, Project.ofDocuments, Project.ofDocuments] at hdocuments ⊢
  rw [hprojectName]
  exact congrArg (Project.mk _ _) hdocuments

variable (hroot : root.text ≠ "")

include hroot

/-- The projects depend on the manifests and the sources, whatever the order in which these are
visited. -/
theorem projectsOf_congr :
    projectsOf parser fs' root exclude (visitedFiles tree') =
      projectsOf parser fs root exclude (visitedFiles tree) := by
  refine eq_of_perm ?_ (pairwise_projectsOf hsound' hdirectory' hroot)
    (pairwise_projectsOf hsound hdirectory hroot)
  have howners : ((sourcesOf exclude (visitedFiles tree')).map
      (ownerOf (visitedFiles tree'))).dedup.Perm
        ((sourcesOf exclude (visitedFiles tree)).map (ownerOf (visitedFiles tree))).dedup := by
    rw [funext (ownerOf_congr hsame)]
    exact ((sourcesOf_perm hsame hsound hsound').map _).dedup
  have hprojects : ∀ owner ∈ ((sourcesOf exclude (visitedFiles tree)).map
      (ownerOf (visitedFiles tree))).dedup,
      projectAt parser fs' root exclude (visitedFiles tree') owner =
        projectAt parser fs root exclude (visitedFiles tree) owner := by
    intro owner howner
    rw [List.mem_dedup, List.mem_map] at howner
    obtain ⟨v, hv, rfl⟩ := howner
    exact projectAt_congr hsame hsound hsound' hdirectory hdirectory' hname hv
  rw [projectsOf_eq, projectsOf_eq, distinctOwners_eq_dedup, distinctOwners_eq_dedup]
  refine (List.mergeSort_perm _ _).trans (List.Perm.trans ?_ (List.mergeSort_perm _ _).symm)
  rw [← List.map_congr_left hprojects]
  exact howners.map _

end

/-! ### Files below a root -/

theorem isSound_of_get? {e found : Entry} (h : e.isSound = true) {location : Location}
    (hget : e.get? location = some found) : found.isSound = true := by
  induction location generalizing e with
  | nil =>
      cases Option.some.inj hget
      exact h
  | cons name rest ih =>
      obtain ⟨entries, child, rfl, hlookup, hrest⟩ := get?_cons_eq_some hget
      exact ih (isSound_of_mem h (mem_of_lookup hlookup)) hrest

/-- A file keeps its contents unless its name is touched. -/
theorem Grown.fileAt {touched : FileName → Prop} {fs fs' : FileSystem} (h : Grown touched fs fs')
    {location : Location} {names : List String} {last : String} (hlast : names.getLast? = some last)
    (huntouched : ¬ touched (encode last)) :
    fs'.top.fileAt (location ++ names.map encode) =
      fs.top.fileAt (location ++ names.map encode) := by
  apply h.others
  intro name hname
  rw [List.getLast?_append, List.getLast?_map, hlast] at hname
  rw [← Option.some.inj hname]
  exact huntouched

theorem no_links_below {top e : Entry} (hlinks : ∀ l t, top.get? l ≠ some (.link t))
    {location : Location} (hentry : top.get? location = some e) :
    ∀ l t, e.get? l ≠ some (.link t) := by
  intro l t hl
  apply hlinks (location ++ l) t
  rw [get?_append, hentry, Option.bind_some, hl]

/-- Without links, names lead to where they say, or nowhere. -/
theorem eq_of_leads_names {top : Entry} (hlinks : ∀ l t, top.get? l ≠ some (.link t))
    {location target : Location} {names : List FileName} (hproper : ∀ n ∈ names, isProper n = true)
    (h : Leads top location names target) : target = location ++ names := by
  rcases hentry : top.get? location with _ | e
  · rcases h with _ | ⟨hstep, -⟩ | ⟨hstep, -⟩
    · exact (List.append_nil location).symm
    all_goals
      have hdirectory := isDirectoryAt_of_step hstep
      rw [IsDirectoryAt, hentry] at hdirectory
      cases hdirectory
  · exact eq_of_leads hentry (no_links_below hlinks hentry) hproper h

section

variable {touched : FileName → Prop} {fs fs' : FileSystem} (hplain : fs.Plain) {root : Path}
  {location : Location} (hlocate : fs.locate root = .ok location)

include hplain hlocate

theorem FileSystem.Plain.holds {tree : Entry} (hentry : fs.top.get? location = some tree)
    (hdirectory : tree.isDirectory = true) : Holds fs root location tree := by
  obtain ⟨htext, hleads⟩ := hplain.locate_eq_ok_iff.mp hlocate
  exact ⟨htext, hleads, hentry, hdirectory, isSound_of_get? hplain.sound hentry,
    no_links_below hplain.links hentry⟩

section

variable {names : List String} (hne : names ≠ []) (hnames : ∀ s ∈ names, IsName s)

include hne hnames

/-- A path of names below a root is located by these names. -/
theorem FileSystem.Plain.locate_below_iff {target : Location} :
    fs.locate (root.join (ofNames names)) = .ok target ↔
      Leads fs.top location (names.map encode) target := by
  obtain ⟨htext, hleads⟩ := hplain.locate_eq_ok_iff.mp hlocate
  obtain ⟨base, -, hsegments, hbase⟩ := leads_base htext hleads hne hnames
  have hsteps : FileSystem.stepsOf (root.join (ofNames names)) =
      base.map encode ++ names.map encode := by
    rw [stepsOf_eq, hsegments, List.map_append]
  have hstart : fs.startOf (root.join (ofNames names)) = fs.startOf root := by
    rw [FileSystem.startOf, FileSystem.startOf, isAbsolute_join htext (isAbsolute_ofNames hnames)]
  have htail : Leads fs.top (fs.startOf root) (base.map encode ++ names.map encode) target ↔
      Leads fs.top location (names.map encode) target := by
    constructor
    · intro hall
      obtain ⟨middle, hfront, hback⟩ := hall.split
      cases hfront.unique hbase
      exact hback
    · exact hbase.append
  rw [hplain.locate_eq_ok_iff, hstart, hsteps, htail,
    and_iff_right (text_join_ne_empty htext (isAbsolute_ofNames hnames))]

/-- The file of these names is read. -/
theorem FileSystem.Plain.read?_below :
    fs.read? (root.join (ofNames names)) = fs.top.fileAt (location ++ names.map encode) := by
  have hproper : ∀ n ∈ names.map encode, isProper n = true := by
    intro n hn
    obtain ⟨s, hs, rfl⟩ := List.mem_map.mp hn
    exact isProper_encode_iff.mpr (hnames s hs)
  rw [read?_eq]
  rcases hfound : fs.locate (root.join (ofNames names)) with e | target
  · rcases hfile : fs.top.fileAt (location ++ names.map encode) with _ | contents
    · rfl
    · have hget := fileAt_eq_some_iff.mp hfile
      rw [get?_append, Option.bind_eq_some_iff] at hget
      obtain ⟨e, hentry, hget⟩ := hget
      have hleads := leads_of_get? hentry (no_links_below hplain.links hentry) hproper hget
      cases hfound.symm.trans ((hplain.locate_below_iff hlocate hne hnames).mpr hleads)
  · have hleads := (hplain.locate_below_iff hlocate hne hnames).mp hfound
    rw [eq_of_leads_names hplain.links hproper hleads]

end

variable (h : Grown touched fs fs')

include h

/-- A file below a root is read as before unless its name is touched. -/
theorem Grown.read?_below {names : List String} (hnames : ∀ s ∈ names, IsName s) {last : String}
    (hlast : names.getLast? = some last) (huntouched : ¬ touched (encode last)) :
    fs'.read? (root.join (ofNames names)) = fs.read? (root.join (ofNames names)) := by
  have hne : names ≠ [] := by
    rintro rfl
    cases hlast
  rw [h.plain.read?_below (h.locate hplain hlocate) hne hnames,
    hplain.read?_below hlocate hne hnames, h.fileAt hlast huntouched]

/-- Projects keep their names. -/
theorem Grown.projectName (huntouched : ¬ touched (encode manifestName)) {owner : List String}
    (howner : ∀ s ∈ owner, IsName s) :
    projectName fs' (rootOf root owner) = projectName fs (rootOf root owner) := by
  have htext := (hplain.locate_eq_ok_iff.mp hlocate).1
  have hread : fs'.read? ((rootOf root owner).join ⟨manifestName⟩) =
      fs.read? ((rootOf root owner).join ⟨manifestName⟩) := by
    rw [join_manifest htext howner]
    exact h.read?_below hplain hlocate (isName_append_manifest howner) List.getLast?_concat
      huntouched
  rw [Files.projectName, Files.projectName, hread]

end

/-! ### Loading -/

/-- The names of source files. -/
def IsSourceName (name : FileName) : Prop := ∃ stem, name = encode (stem ++ ".rs")

/-- The names of files that loading looks at. -/
def Matters (name : FileName) : Prop := name = encode manifestName ∨ IsSourceName name

theorem exists_source_name {tree : Entry} (hsound : tree.isSound = true)
    {exclude : List Glob.Pattern} {v : Visited} (hv : v ∈ sourcesOf exclude (visitedFiles tree)) :
    ∃ last, v.names.getLast? = some last ∧ IsSourceName (encode last) := by
  have hsource := (List.mem_filter.mp hv).2
  simp only [Visited.isSource, Bool.and_eq_true, decide_eq_true_eq] at hsource
  obtain ⟨stem, -, hlast⟩ := (extension_path_iff (isName_of_mem_sourcesOf hsound hv)).mp hsource.1.2
  exact ⟨_, hlast, stem, rfl⟩

/-- A manifest or a source has a name that matters. -/
theorem exists_name_of_mem {tree : Entry} (hsound : tree.isSound = true)
    {exclude : List Glob.Pattern} {v : Visited} (hv : v ∈ visitedFiles tree)
    (hkind : v.isManifest = true ∨ v.isSource exclude = true) :
    ∃ last, v.names.getLast? = some last ∧ Matters (encode last) := by
  rcases hkind with hmanifest | hsource
  · rw [Visited.isManifest, decide_eq_true_eq] at hmanifest
    exact ⟨manifestName, hmanifest, Or.inl rfl⟩
  · have hmem : v ∈ sourcesOf exclude (visitedFiles tree) := List.mem_filter.mpr ⟨hv, hsource⟩
    obtain ⟨last, hlast, hname⟩ := exists_source_name hsound hmem
    exact ⟨last, hlast, Or.inr hname⟩

/-- Trees with the same files of names that matter are visited alike. -/
theorem mem_visitedFiles_congr {tree tree' : Entry} (hsound : tree.isSound = true)
    (hsound' : tree'.isSound = true)
    (hfiles : ∀ (names : List String) (last : String), names.getLast? = some last →
      Matters (encode last) → tree'.fileAt (names.map encode) = tree.fileAt (names.map encode))
    {exclude : List Glob.Pattern} {v : Visited}
    (hkind : v.isManifest = true ∨ v.isSource exclude = true) :
    v ∈ visitedFiles tree' ↔ v ∈ visitedFiles tree := by
  constructor
  · intro hv
    obtain ⟨last, hlast, hmatters⟩ := exists_name_of_mem hsound' hv hkind
    rw [mem_visitedFiles_iff hsound, ← hfiles v.names last hlast hmatters]
    exact (mem_visitedFiles_iff hsound').mp hv
  · intro hv
    obtain ⟨last, hlast, hmatters⟩ := exists_name_of_mem hsound hv hkind
    rw [mem_visitedFiles_iff hsound', hfiles v.names last hlast hmatters]
    exact (mem_visitedFiles_iff hsound).mp hv

section

variable {parser : Parser} {fs fs' : FileSystem} {root : Path} {texts : List String}
  {projects : List Project}

/-- What is loaded comes from an entry at the root: from a directory, and nothing from a file. -/
theorem exists_of_loadProjects (hload : loadProjects parser fs root texts = .ok projects) :
    ∃ location tree exclude, fs.locate root = .ok location ∧ fs.top.get? location = some tree ∧
      patterns? texts = .ok exclude ∧
      (tree.isDirectory = true ∧
          projects = projectsOf parser fs root exclude (visitedFiles tree) ∨
        tree.isDirectory = false ∧ projects = []) := by
  obtain ⟨exclude, hexclude⟩ := exists_patterns hload
  rw [loadProjects, hexclude] at hload
  rcases hlocate : fs.locate root with e | location
  · rw [FileSystem.entry?, hlocate] at hload
    cases hload
  · rw [FileSystem.entry?, hlocate] at hload
    rcases hentry : fs.top.get? location with _ | tree
    · simp only [hentry] at hload
      cases hload
    · refine ⟨location, tree, exclude, rfl, hentry, hexclude, ?_⟩
      simp only [hentry] at hload
      rcases tree with contents | entries | target
      · cases hload
        exact Or.inr ⟨rfl, rfl⟩
      · cases hload
        exact Or.inl ⟨rfl, rfl⟩
      · cases hload
        exact Or.inr ⟨rfl, rfl⟩

theorem loadProjects_of_not_directory {tree : Entry} (htree : fs.entry? root = some tree)
    (hfile : tree.isDirectory = false) {exclude : List Glob.Pattern}
    (hexclude : patterns? texts = .ok exclude) : loadProjects parser fs root texts = .ok [] := by
  rw [loadProjects, hexclude, htree]
  rcases tree with contents | entries | target
  · rfl
  · cases hfile
  · rfl

/-- Files of names that do not matter go unnoticed, wherever they are written. -/
theorem loadProjects_grown {touched : FileName → Prop} (h : Grown touched fs fs')
    (hplain : fs.Plain) (huntouched : ∀ name, Matters name → ¬ touched name)
    (hload : loadProjects parser fs root texts = .ok projects) :
    loadProjects parser fs' root texts = .ok projects := by
  obtain ⟨location, tree, exclude, hlocate, hentry, hexclude, hprojects⟩ :=
    exists_of_loadProjects hload
  obtain ⟨tree', hentry', houtline⟩ := Option.map_eq_some_iff.mp
    (h.kept location tree.outline (by rw [hentry, Option.map_some]))
  have hkind : tree'.isDirectory = tree.isDirectory := by
    rw [Bool.eq_iff_iff, isDirectory_iff_outline, isDirectory_iff_outline, houtline]
  have htree' : fs'.entry? root = some tree' := by
    rw [FileSystem.entry?, h.locate hplain hlocate]
    exact hentry'
  have hsound := isSound_of_get? hplain.sound hentry
  have hsound' := isSound_of_get? h.plain.sound hentry'
  rcases hprojects with ⟨hdirectory, rfl⟩ | ⟨hfile, rfl⟩
  · rw [loadProjects_eq htree' (hkind.trans hdirectory) hexclude]
    apply congrArg Except.ok
    refine projectsOf_congr ?_ hsound hsound' hdirectory (hkind.trans hdirectory) ?_
      (hplain.locate_eq_ok_iff.mp hlocate).1
    · intro v hv
      refine mem_visitedFiles_congr hsound hsound' ?_ hv
      intro names last hlast hmatters
      have hbelow : ∀ {top e : Entry}, top.get? location = some e →
          e.fileAt (names.map encode) = top.fileAt (location ++ names.map encode) := by
        intro top e he
        rw [fileAt, fileAt, get?_append, he, Option.bind_some]
      rw [hbelow hentry', hbelow hentry]
      exact h.fileAt hlast (huntouched _ hmatters)
    · intro owner howner
      exact h.projectName hplain hlocate (huntouched _ (Or.inl rfl)) howner
  · exact loadProjects_of_not_directory htree' (hkind.trans hfile) hexclude

/-- Loading again when the documents of a renewal were written, with no write refused. -/
theorem loadProjects_renewal (hplain : fs.Plain)
    (hload : loadProjects parser fs root texts = .ok projects)
    {renew : Project → Document → Document} (hrenew : IsRenewal renew) {calls : List WriteCall}
    (hcalls : calls = projects.flatMap fun p =>
      p.documents.filterMap fun d => renewalCall p d (renew p d))
    (hdone : (perform attempt calls fs).error = none) :
    loadProjects parser (perform attempt calls fs).state root texts =
        .ok (projects.map (reread parser renew)) ∧
      Grown IsSourceName fs (perform attempt calls fs).state := by
  obtain ⟨location, tree, exclude, hlocate, hentry, hexclude, ⟨hdirectory, rfl⟩ | ⟨-, rfl⟩⟩ :=
    exists_of_loadProjects hload
  · have hholds := hplain.holds hlocate hentry hdirectory
    refine ⟨(reload_renewal hholds hlocate hrenew hcalls hdone hexclude).1,
      perform_grown hplain ?_ hdone⟩
    intro call hcall
    rw [hcalls] at hcall
    obtain ⟨v, hv, text, -, rfl⟩ :=
      (mem_renewalCalls hdirectory hholds.sound hholds.text hrenew).mp hcall
    obtain ⟨last, hlast, hsource⟩ := exists_source_name hholds.sound hv
    exact touches_writeFile root (isName_of_mem_sourcesOf hholds.sound hv) hlast hsource text
  · subst hcalls
    exact ⟨hload, .refl hplain⟩

end

end PubSweep.Files
