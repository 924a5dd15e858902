import PubSweep.Proofs.Files.Discovery
import PubSweep.Proofs.Files.Writing

/-!
Loading again what was written.

A renewal puts a document in the place of each document of the projects that were loaded.
`exists_writes` says which files are written for it, and `projectsOf_rewritten` that loading the
written tree gives the projects with the texts of the renewed documents.
-/

namespace PubSweep.Files

open Entry PubSweep.Path Syntax

/-- A document for each document of each project: with the same identity and path, and with the
same text unless it is a new one. -/
structure IsRenewal (renew : Project → Document → Document) : Prop where
  id : ∀ p d, (renew p d).id = d.id
  path : ∀ p d, (renew p d).path = d.path
  shared : ∀ p d, d.isShared (renew p d) = true → (renew p d).text = d.text

/-- A project with its documents renewed. -/
def renewed (renew : Project → Document → Document) (p : Project) : Project :=
  { p with documents := p.documents.map (renew p) }

/-- A project with the texts of its renewed documents, read anew. -/
def reread (parser : Parser) (renew : Project → Document → Document) (p : Project) : Project :=
  { p with documents := p.documents.map fun d => d.withTree (parser.tree (renew p d).text) }

/-! ### Names of projects -/

theorem read?_eq (fs : FileSystem) (path : Path) :
    fs.read? path =
      match fs.locate path with
      | .ok location => fs.top.fileAt location
      | .error _ => none := by
  rw [FileSystem.read?, FileSystem.entry?]
  cases fs.locate path <;> rfl

theorem isName_append_manifest {owner : List String} (howner : ∀ s ∈ owner, IsName s) :
    ∀ s ∈ owner ++ [manifestName], IsName s := by
  intro s hs
  rcases List.mem_append.mp hs with hs | hs
  · exact howner s hs
  · rw [List.mem_singleton.mp hs]
    decide

theorem join_manifest {root : Path} (hroot : root.text ≠ "") {owner : List String}
    (howner : ∀ s ∈ owner, IsName s) :
    (rootOf root owner).join ⟨manifestName⟩ = root.join (ofNames (owner ++ [manifestName])) := by
  have hmanifest : (⟨manifestName⟩ : Path) = ofNames [manifestName] := rfl
  rw [hmanifest]
  cases owner with
  | nil => rfl
  | cons first rest => exact join_join hroot (by simp) (by simp) (isName_append_manifest howner)

section

variable {fs fs' : FileSystem} {root : Path} {location : Location} {tree tree' : Entry}
  {writes : List (List String × String)}

theorem Rewrites.locate_eq (h : Rewrites root location writes fs tree fs' tree') (path : Path) :
    fs'.locate path = fs.locate path := by
  rw [FileSystem.locate, FileSystem.locate, h.outlines.walk_eq, FileSystem.startOf,
    FileSystem.startOf, h.cwd]

/-- A path of names below the root is located at these names. -/
theorem Holds.eq_of_locate (h : Holds fs root location tree) {names : List String}
    (hne : names ≠ []) (hnames : ∀ s ∈ names, IsName s) {target : Location}
    (htarget : fs.locate (root.join (ofNames names)) = .ok target) :
    target = location ++ names.map encode := by
  rw [FileSystem.locate, if_neg (text_join_ne_empty h.text (isAbsolute_ofNames hnames))] at htarget
  obtain ⟨base, -, hsegments, hbase⟩ := leads_base h.text h.leads hne hnames
  have hleads := leads_of_walk htarget
  rw [stepsOf_eq, hsegments, List.map_append, h.startOf_join hnames] at hleads
  obtain ⟨middle, hfront, hback⟩ := hleads.split
  cases hfront.unique hbase
  refine eq_of_leads h.entry h.links ?_ hback
  intro n hn
  obtain ⟨s, hs, rfl⟩ := List.mem_map.mp hn
  exact isProper_encode_iff.mpr (hnames s hs)

/-- Writing sources leaves the names of the projects. -/
theorem projectName_eq (hold : Holds fs root location tree)
    (h : Rewrites root location writes fs tree fs' tree')
    (hwrites : ∀ w ∈ writes, w.1.getLast? ≠ some manifestName) {owner : List String}
    (howner : ∀ s ∈ owner, IsName s) :
    projectName fs' (rootOf root owner) = projectName fs (rootOf root owner) := by
  have hread : fs'.read? ((rootOf root owner).join ⟨manifestName⟩) =
      fs.read? ((rootOf root owner).join ⟨manifestName⟩) := by
    rw [join_manifest hold.text howner, read?_eq, read?_eq, h.locate_eq]
    cases hlocate : fs.locate (root.join (ofNames (owner ++ [manifestName]))) with
    | error e => rfl
    | ok target =>
        apply h.others
        intro w hw heq
        rw [hold.eq_of_locate (by simp) (isName_append_manifest howner) hlocate,
          List.append_cancel_left_eq, encode_injective.list_map.eq_iff] at heq
        apply hwrites w hw
        rw [← heq, List.getLast?_concat]
  rw [projectName, projectName, hread]

end

/-! ### The files that are written -/

/-- The text to write for a renewed document, unless it is the old one. -/
def newText? (old new : Document) : Option String :=
  if old.isShared new || old.text = new.text then none else some new.text

/-- The call that writes a renewed document. -/
def renewalCall (p : Project) (old new : Document) : Option WriteCall :=
  (newText? old new).map (.writeFile (p.root.join new.path))

/-- Writing an outcome is writing its renewed documents. -/
theorem documentCalls_eq {before : List Project} {o : Outcome}
    {renew : Project → Document → Document} (h : o.projects = before.map (renewed renew))
    (hcancelled : o.report.cancelled = true → renew = fun _ d => d) :
    o.documentCalls before =
      before.flatMap fun p => p.documents.filterMap fun d => renewalCall p d (renew p d) := by
  rw [Outcome.documentCalls]
  split
  case isTrue hstop =>
    rw [hcancelled hstop]
    simp [renewalCall, newText?, Document.isShared]
  case isFalse =>
    rw [Pass.pairs, h]
    simp only [List.zip, List.zipWith_map_right, List.zipWith_self, List.flatMap_map,
      List.filterMap_flatMap, renewed, List.filterMap_map, Function.comp_def]
    congr! 4 with p d
    rw [renewalCall, newText?]
    split <;> rfl

theorem exists_map_eq {α β : Type} {f : α → β} {P : α → Prop} {bs : List β}
    (h : ∀ b ∈ bs, ∃ a, P a ∧ f a = b) : ∃ as : List α, as.map f = bs ∧ ∀ a ∈ as, P a := by
  induction bs with
  | nil => exact ⟨[], rfl, by simp⟩
  | cons b bs ih =>
      obtain ⟨a, ha, rfl⟩ := h b List.mem_cons_self
      obtain ⟨as, rfl, has⟩ := ih fun b' hb' => h b' (List.mem_cons_of_mem _ hb')
      exact ⟨a :: as, rfl, List.forall_mem_cons.mpr ⟨ha, has⟩⟩

section

variable (parser : Parser) (fs : FileSystem) (root : Path) (exclude : List Glob.Pattern)
  (visited : List Visited) (renew : Project → Document → Document)

/-- The text that is written to the file of a source, if any. -/
def writtenText (v : Visited) : Option String :=
  (documentOf parser fs root (ownerOf visited v) v).bind fun d =>
    newText? d (renew (projectAt parser fs root exclude visited (ownerOf visited v)) d)

end

section

variable {parser : Parser} {fs : FileSystem} {root : Path} {exclude : List Glob.Pattern}
  {tree : Entry} {renew : Project → Document → Document}
  (hdirectory : tree.isDirectory = true) (hsound : tree.isSound = true) (hroot : root.text ≠ "")
  (hrenew : IsRenewal renew)

include hdirectory hsound hroot

/-- The paths of a project and of a document in it make the path of its source. -/
theorem join_documentOf {v : Visited} (hv : v ∈ sourcesOf exclude (visitedFiles tree))
    {d : Document} (hd : documentOf parser fs root (ownerOf (visitedFiles tree) v) v = some d) :
    (rootOf root (ownerOf (visitedFiles tree) v)).join d.path = root.join (ofNames v.names) := by
  obtain ⟨rest, hne, hrest, hnames, hpath⟩ := path_of_documentOf hsound hdirectory hv hd
  have hall := isName_of_mem_sourcesOf hsound hv
  rw [hpath, hnames] at *
  generalize ownerOf (visitedFiles tree) v = owner at *
  cases owner with
  | nil => rfl
  | cons first others => exact join_join hroot (by simp) hne hall

include hrenew

/-- The calls for a renewal write the texts of sources. -/
theorem mem_renewalCalls {call : WriteCall} :
    (call ∈ (projectsOf parser fs root exclude (visitedFiles tree)).flatMap fun p =>
        p.documents.filterMap fun d => renewalCall p d (renew p d)) ↔
      ∃ v ∈ sourcesOf exclude (visitedFiles tree), ∃ text,
        writtenText parser fs root exclude (visitedFiles tree) renew v = some text ∧
          call = writeCall root (v.names, text) := by
  simp only [List.mem_flatMap, List.mem_filterMap]
  constructor
  · rintro ⟨p, hp, d, hd, hcall⟩
    obtain ⟨v, hv, rfl, hdocument⟩ := exists_source_of_mem hp hd
    obtain ⟨text, htext, rfl⟩ := Option.map_eq_some_iff.mp hcall
    refine ⟨v, hv, text, ?_, ?_⟩
    · rw [writtenText, hdocument, Option.bind_some, htext]
    · rw [writeCall, hrenew.path, ← join_documentOf hdirectory hsound hroot hv hdocument]
      rfl
  · rintro ⟨v, hv, text, htext, rfl⟩
    obtain ⟨d, hdocument, hnew⟩ := Option.bind_eq_some_iff.mp htext
    refine ⟨_, mem_projectsOf.mpr ⟨v, hv, rfl⟩, d,
      mem_documents_projectAt.mpr ⟨v, hv, rfl, hdocument⟩, ?_⟩
    rw [renewalCall, hnew, hrenew.path, writeCall,
      ← join_documentOf hdirectory hsound hroot hv hdocument]
    rfl

omit hrenew in
theorem names_eq_of_join_eq {v w : Visited} (hv : v ∈ sourcesOf exclude (visitedFiles tree))
    (hw : w ∈ sourcesOf exclude (visitedFiles tree))
    (h : root.join (ofNames v.names) = root.join (ofNames w.names)) : v.names = w.names := by
  have hne : ∀ {u}, u ∈ sourcesOf exclude (visitedFiles tree) → u.names ≠ [] := by
    intro u hu hnil
    obtain ⟨rest, hrest, hnames⟩ := names_eq_of_mem_sourcesOf hsound hdirectory hu
    rw [hnil] at hnames
    exact hrest (List.append_eq_nil_iff.mp hnames.symm).2
  have hcomponents := congrArg Path.components h
  rw [components_join hroot (hne hv) (isName_of_mem_sourcesOf hsound hv),
    components_join hroot (hne hw) (isName_of_mem_sourcesOf hsound hw)] at hcomponents
  exact name_injective.list_map (List.append_cancel_left hcomponents)

/-- The writes for a renewal: one for each source whose text is another one. -/
theorem exists_writes :
    ∃ writes : List (List String × String),
      ((projectsOf parser fs root exclude (visitedFiles tree)).flatMap fun p =>
        p.documents.filterMap fun d => renewalCall p d (renew p d)) =
          writes.map (writeCall root) ∧
      (∀ w ∈ writes, ∃ v ∈ sourcesOf exclude (visitedFiles tree), v.names = w.1 ∧
        writtenText parser fs root exclude (visitedFiles tree) renew v = some w.2) ∧
      ∀ v ∈ sourcesOf exclude (visitedFiles tree), writes.lookup v.names =
        writtenText parser fs root exclude (visitedFiles tree) renew v := by
  obtain ⟨writes, hmap, hwrites⟩ := exists_map_eq (f := writeCall root)
    (P := fun w => ∃ v ∈ sourcesOf exclude (visitedFiles tree), v.names = w.1 ∧
      writtenText parser fs root exclude (visitedFiles tree) renew v = some w.2)
    (fun call hcall => by
      obtain ⟨v, hv, text, htext, rfl⟩ :=
        (mem_renewalCalls hdirectory hsound hroot hrenew).mp hcall
      exact ⟨(v.names, text), ⟨v, hv, rfl, htext⟩, rfl⟩)
  refine ⟨writes, hmap.symm, hwrites, ?_⟩
  intro v hv
  cases hlookup : writes.lookup v.names with
  | some text =>
      obtain ⟨w, hw, hnames, htext⟩ := hwrites _ (mem_of_lookup hlookup)
      rw [← eq_of_names_eq hsound (List.mem_filter.mp hw).1 (List.mem_filter.mp hv).1 hnames, htext]
  | none =>
      cases htext : writtenText parser fs root exclude (visitedFiles tree) renew v with
      | none => rfl
      | some text =>
          have hcall := (mem_renewalCalls hdirectory hsound hroot hrenew).mpr
            ⟨v, hv, text, htext, rfl⟩
          rw [← hmap, List.mem_map] at hcall
          obtain ⟨w, hw, heq⟩ := hcall
          obtain ⟨u, hu, hnames, -⟩ := hwrites w hw
          have hjoin : root.join (ofNames u.names) = root.join (ofNames v.names) := by
            rw [hnames]
            exact congrArg WriteCall.path heq
          have hsame := names_eq_of_join_eq hdirectory hsound hroot hu hv hjoin
          rw [List.lookup_eq_none_iff] at hlookup
          have hne := hlookup w hw
          rw [← hnames, hsame] at hne
          simp at hne

end

/-! ### Loading again -/

section

variable (writes : List (List String × String)) (visited : List Visited)

@[simp] theorem names_rewritten (v : Visited) : (rewritten writes v).names = v.names := by
  rw [rewritten]
  split <;> rfl

@[simp] theorem isManifest_rewritten (v : Visited) :
    (rewritten writes v).isManifest = v.isManifest := by
  simp [Visited.isManifest]

@[simp] theorem isSource_rewritten (exclude : List Glob.Pattern) (v : Visited) :
    (rewritten writes v).isSource exclude = v.isSource exclude := by
  rw [Visited.isSource, isManifest_rewritten, Visited.path, names_rewritten]
  rfl

theorem sourcesOf_map_rewritten (exclude : List Glob.Pattern) :
    sourcesOf exclude (visited.map (rewritten writes)) =
      (sourcesOf exclude visited).map (rewritten writes) := by
  simp [sourcesOf, List.filter_map, Function.comp_def]

theorem ownerOf_map_rewritten (v : Visited) :
    ownerOf (visited.map (rewritten writes)) (rewritten writes v) = ownerOf visited v := by
  simp [ownerOf, manifestDirectories, List.filter_map, Function.comp_def]

end

section

variable {parser : Parser} {fs fs' : FileSystem} {root : Path} {exclude : List Glob.Pattern}
  {visited : List Visited} {renew : Project → Document → Document}
  {writes : List (List String × String)} (hrenew : IsRenewal renew)
  (hlookup : ∀ v ∈ sourcesOf exclude visited, writes.lookup v.names =
    writtenText parser fs root exclude visited renew v)
  (hname : ∀ v ∈ sourcesOf exclude visited,
    projectName fs' (rootOf root (ownerOf visited v)) =
      projectName fs (rootOf root (ownerOf visited v)))

include hrenew hlookup hname

/-- The document of a source that may have been written has the text of the renewed document. -/
theorem documentOf_rewritten {v : Visited} (hv : v ∈ sourcesOf exclude visited) :
    documentOf parser fs' root (ownerOf visited v) (rewritten writes v) =
      (documentOf parser fs root (ownerOf visited v) v).map fun d => d.withTree (parser.tree
        (renew (projectAt parser fs root exclude visited (ownerOf visited v)) d).text) := by
  have htext := hlookup v hv
  rw [writtenText] at htext
  cases hcontents : decode? v.contents with
  | none =>
      have hnone : documentOf parser fs root (ownerOf visited v) v = none := by
        rw [documentOf, hcontents, Option.map_none]
      rw [hnone, Option.bind_none] at htext
      rw [hnone, Option.map_none, rewritten, htext]
      simp only [documentOf, hcontents, Option.map_none]
  | some text =>
      have hsome : documentOf parser fs root (ownerOf visited v) v = some (.parse parser
          (projectName fs (rootOf root (ownerOf visited v)))
          (ofNames (v.names.drop (ownerOf visited v).length)) text) := by
        rw [documentOf, hcontents, Option.map_some]
      rw [hsome, Option.bind_some, newText?] at htext
      rw [hsome, Option.map_some, rewritten, htext]
      split
      case h_1 new hnew =>
        split at hnew
        · cases hnew
        · cases Option.some.inj hnew
          simp only [documentOf, decode?_encode, Option.map_some, hname v hv]
          rfl
      case h_2 hold =>
        split at hold
        case isTrue hunchanged =>
          simp only [documentOf, hcontents, Option.map_some, hname v hv, Option.some.injEq]
          rw [Bool.or_eq_true, decide_eq_true_eq] at hunchanged
          have hkeep := hunchanged.elim (hrenew.shared _ _) Eq.symm
          rw [hkeep]
          rfl
        · cases hold

theorem projectAt_rewritten {v : Visited} (hv : v ∈ sourcesOf exclude visited) :
    projectAt parser fs' root exclude (visited.map (rewritten writes)) (ownerOf visited v) =
      reread parser renew (projectAt parser fs root exclude visited (ownerOf visited v)) := by
  have hdocuments : (((sourcesOf exclude visited).map (rewritten writes)).filter
        (ownerOf (visited.map (rewritten writes)) · = ownerOf visited v)).filterMap
          (documentOf parser fs' root (ownerOf visited v)) =
      (((sourcesOf exclude visited).filter (ownerOf visited · = ownerOf visited v)).filterMap
        (documentOf parser fs root (ownerOf visited v))).map fun d => d.withTree (parser.tree
          (renew (projectAt parser fs root exclude visited (ownerOf visited v)) d).text) := by
    rw [List.filter_map, List.filterMap_map, List.map_filterMap]
    simp only [Function.comp_def, ownerOf_map_rewritten]
    apply List.filterMap_congr
    intro u hu
    obtain ⟨husource, howner⟩ := List.mem_filter.mp hu
    rw [decide_eq_true_eq] at howner
    rw [← howner]
    exact documentOf_rewritten hrenew hlookup hname husource
  rw [projectAt_eq, hname v hv, sourcesOf_map_rewritten, hdocuments, Project.ofDocuments,
    ← List.map_mergeSort]
  · rfl
  · intro a _ b _
    rfl

/-- Loading the written files gives the projects with the renewed texts. -/
theorem projectsOf_rewritten :
    projectsOf parser fs' root exclude (visited.map (rewritten writes)) =
      (projectsOf parser fs root exclude visited).map (reread parser renew) := by
  have howners : ((sourcesOf exclude visited).map (rewritten writes)).map
      (ownerOf (visited.map (rewritten writes))) =
        (sourcesOf exclude visited).map (ownerOf visited) := by
    simp only [List.map_map, Function.comp_def, ownerOf_map_rewritten]
  have hprojects : (distinctOwners ((sourcesOf exclude visited).map (ownerOf visited))).map
        (projectAt parser fs' root exclude (visited.map (rewritten writes))) =
      ((distinctOwners ((sourcesOf exclude visited).map (ownerOf visited))).map
        (projectAt parser fs root exclude visited)).map (reread parser renew) := by
    rw [List.map_map, distinctOwners_eq_dedup]
    apply List.map_congr_left
    intro owner howner
    rw [List.mem_dedup, List.mem_map] at howner
    obtain ⟨v, hv, rfl⟩ := howner
    exact projectAt_rewritten hrenew hlookup hname hv
  rw [projectsOf_eq, sourcesOf_map_rewritten, howners, hprojects, projectsOf_eq,
    ← List.map_mergeSort]
  intro a _ b _
  rfl

end

section

variable {parser : Parser} {fs : FileSystem} {root : Path} {tree : Entry}

theorem exists_holds (htree : fs.entry? root = some tree) (hdirectory : tree.isDirectory = true)
    (hsound : tree.isSound = true) (hlinks : ∀ l t, tree.get? l ≠ some (.link t)) :
    ∃ location, fs.locate root = .ok location ∧ Holds fs root location tree := by
  have htext := text_ne_empty_of_entry? htree
  rw [FileSystem.entry?] at htree
  cases hlocate : fs.locate root with
  | error e =>
      rw [hlocate] at htree
      cases htree
  | ok location =>
      rw [hlocate] at htree
      refine ⟨location, rfl, htext, ?_, htree, hdirectory, hsound, hlinks⟩
      rw [FileSystem.locate, if_neg htext] at hlocate
      exact leads_of_walk hlocate

variable {location : Location} {exclude : List Glob.Pattern}
  {renew : Project → Document → Document}

theorem get?_of_mem_sourcesOf (hsound : tree.isSound = true) {v : Visited}
    (hv : v ∈ sourcesOf exclude (visitedFiles tree)) :
    ∃ old, tree.get? (v.names.map encode) = some (.file old) :=
  ⟨_, fileAt_eq_some_iff.mp ((mem_visitedFiles_iff hsound).mp (List.mem_filter.mp hv).1).1⟩

/-- A manifest is not a source. -/
theorem getLast?_ne_of_mem_sourcesOf {v : Visited} (hv : v ∈ sourcesOf exclude (visitedFiles tree)) :
    v.names.getLast? ≠ some manifestName := by
  have hsource := (List.mem_filter.mp hv).2
  simp only [Visited.isSource, Visited.isManifest, Bool.and_eq_true, Bool.not_eq_true',
    decide_eq_false_iff_not] at hsource
  exact hsource.1.1

/-- Writing a renewal of loaded projects, with no write refused, and loading again: the projects
are those with the renewed texts, and only files of documents with a new text have changed. -/
theorem reload_renewal (h : Holds fs root location tree) (hlocate : fs.locate root = .ok location)
    (hrenew : IsRenewal renew)
    {calls : List WriteCall}
    (hcalls : calls = (projectsOf parser fs root exclude (visitedFiles tree)).flatMap fun p =>
      p.documents.filterMap fun d => renewalCall p d (renew p d))
    (hdone : (perform attempt calls fs).error = none) {texts : List String}
    (hexclude : patterns? texts = .ok exclude) :
    loadProjects parser (perform attempt calls fs).state root texts =
        .ok ((projectsOf parser fs root exclude (visitedFiles tree)).map (reread parser renew)) ∧
      ∀ l, (perform attempt calls fs).state.top.fileAt l ≠ fs.top.fileAt l →
        ∃ v ∈ sourcesOf exclude (visitedFiles tree), ∃ text, l = location ++ v.names.map encode ∧
          writtenText parser fs root exclude (visitedFiles tree) renew v = some text := by
  obtain ⟨writes, hwrites, hsource, hlookup⟩ :=
    @exists_writes parser fs root exclude tree renew h.directory h.sound h.text hrenew
  rw [← hcalls] at hwrites
  rw [hwrites] at hdone ⊢
  have hfiles : ∀ w ∈ writes, ∃ old, tree.get? (w.1.map encode) = some (.file old) := by
    intro w hw
    obtain ⟨v, hv, hnames, -⟩ := hsource w hw
    exact hnames ▸ get?_of_mem_sourcesOf h.sound hv
  have hsame : ∀ w ∈ writes, ∀ w' ∈ writes, w.1 = w'.1 → w.2 = w'.2 := by
    intro w hw w' hw' heq
    obtain ⟨v, hv, hnames, htext⟩ := hsource w hw
    obtain ⟨v', hv', hnames', htext'⟩ := hsource w' hw'
    rw [← hnames, ← hnames'] at heq
    rw [eq_of_names_eq h.sound (List.mem_filter.mp hv).1 (List.mem_filter.mp hv').1 heq] at htext
    exact Option.some.inj (htext.symm.trans htext')
  have hmanifest : ∀ w ∈ writes, w.1.getLast? ≠ some manifestName := by
    intro w hw
    obtain ⟨v, hv, hnames, -⟩ := hsource w hw
    exact hnames ▸ getLast?_ne_of_mem_sourcesOf hv
  obtain ⟨tree', hrewrites⟩ := perform_writes h hfiles hsame hdone
  have hentry : (perform attempt (writes.map (writeCall root)) fs).state.entry? root =
      some tree' := by
    rw [FileSystem.entry?, hrewrites.locate_eq, hlocate]
    exact hrewrites.holds.entry
  constructor
  · rw [loadProjects_eq hentry hrewrites.holds.directory hexclude, hrewrites.visited]
    apply congrArg Except.ok
    refine projectsOf_rewritten hrenew hlookup ?_
    intro v hv
    exact projectName_eq h hrewrites hmanifest (isName_of_mem_ownerOf h.sound h.directory hv)
  · intro l hl
    by_contra hnone
    apply hl
    apply hrewrites.others
    rintro w hw rfl
    obtain ⟨v, hv, hnames, htext⟩ := hsource w hw
    exact hnone ⟨v, hv, w.2, by rw [hnames], htext⟩

end

end PubSweep.Files
