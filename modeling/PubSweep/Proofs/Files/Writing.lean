import PubSweep.Proofs.Files.Visited
import PubSweep.Proofs.Files.Walk

/-!
Writing files below a root.

A file system holds a tree at a root if the root leads to the tree, which has no links.  A file of
the tree that is written is set there or refused (`attempt_writeFile`), and then the file system
holds the tree with the new file (`Holds.write`).  `perform_writes` follows this along a run of
writes.
-/

namespace PubSweep.Files

open Entry PubSweep.Path

/-- A tree without links, and the location that a path to it leads to. -/
structure Holds (fs : FileSystem) (root : Path) (location : Location) (tree : Entry) : Prop where
  text : root.text ≠ ""
  leads : Leads fs.top (fs.startOf root) (FileSystem.stepsOf root) location
  entry : fs.top.get? location = some tree
  directory : tree.isDirectory = true
  sound : tree.isSound = true
  links : ∀ l t, tree.get? l ≠ some (.link t)

/-! ### One write -/

theorem isIdle_encode (s : String) : isIdle (encode s) = isBlank s := by
  have hempty : encode s = [] ↔ s = "" := encode_injective.eq_iff (a := s) (b := "")
  have hdot : encode s = dot ↔ s = "." := encode_injective.eq_iff (a := s) (b := ".")
  rw [Bool.eq_iff_iff]
  simp [isIdle, isBlank, hempty, hdot]

theorem filter_isIdle_map_encode (segments : List String) :
    (segments.map encode).filter (!isIdle ·) = (segments.filter (!isBlank ·)).map encode := by
  rw [List.filter_map]
  simp only [Function.comp_def, isIdle_encode]

section

variable {fs : FileSystem} {root : Path} {location : Location} {tree : Entry}

/-- A path below the root leads through the root. -/
theorem leads_base (htext : root.text ≠ "")
    (hleads : Leads fs.top (fs.startOf root) (FileSystem.stepsOf root) location)
    {names : List String} (hne : names ≠ []) (hnames : ∀ s ∈ names, IsName s) :
    ∃ base, base ≠ [] ∧ (root.join (ofNames names)).segments = base ++ names ∧
      Leads fs.top (fs.startOf root) (base.map encode) location := by
  obtain ⟨base, hbase, hsegments, hjoin⟩ := segments_join htext hne hnames
  refine ⟨base, hbase, hjoin, ?_⟩
  rw [stepsOf_eq] at hleads
  rcases hsegments with ⟨hsame, -⟩ | hslash
  · rwa [hsame] at hleads
  · -- the empty step behind the last slash stays where it is
    rw [hslash, List.map_append] at hleads
    obtain ⟨middle, hfront, hback⟩ := hleads.split
    rcases hback with _ | ⟨hstep, hrest⟩ | ⟨hstep, -⟩
    · cases (step_of_isIdle (isDirectoryAt_of_step hstep) rfl).symm.trans hstep
      cases hrest
      exact hfront
    · cases (step_of_isIdle (isDirectoryAt_of_step hstep) rfl).symm.trans hstep

theorem Holds.startOf_join (h : Holds fs root location tree) {names : List String}
    (hnames : ∀ s ∈ names, IsName s) :
    fs.startOf (root.join (ofNames names)) = fs.startOf root := by
  rw [FileSystem.startOf, FileSystem.startOf, isAbsolute_join h.text (isAbsolute_ofNames hnames)]

theorem Holds.isName (h : Holds fs root location tree) {names : List String} {found : Entry}
    (hfound : tree.get? (names.map encode) = some found) : ∀ s ∈ names, IsName s := by
  intro s hs
  exact isProper_encode_iff.mp (isProper_of_get? h.sound hfound _ (List.mem_map_of_mem hs))

section

variable {front : List String} {last : String} {old : List UInt8}
  (h : Holds fs root location tree)
  (hfile : tree.get? ((front ++ [last]).map encode) = some (.file old))

include hfile in
/-- The directory of a file of the tree. -/
theorem exists_directory :
    ∃ directory, tree.get? (front.map encode) = some directory ∧
      directory.get? [encode last] = some (.file old) := by
  rw [List.map_append, get?_append, Option.bind_eq_some_iff] at hfile
  exact hfile

include h hfile

theorem Holds.step_last :
    step fs.top (location ++ front.map encode) (encode last) =
      .ok (.here (location ++ front.map encode ++ [encode last])) := by
  obtain ⟨directory, hdirectory, hlast⟩ := exists_directory hfile
  have hentry : fs.top.get? (location ++ front.map encode) = some directory := by
    rw [get?_append, h.entry, Option.bind_some, hdirectory]
  have hlinks : ∀ l t, directory.get? l ≠ some (.link t) := by
    intro l t hl
    apply h.links (front.map encode ++ l) t
    rw [get?_append, hdirectory, Option.bind_some, hl]
  have hname := h.isName hfile last (by simp)
  exact (step_into hentry hlinks (isProper_encode_iff.mpr hname) hlast).1

/-- The way to the directory of a file of the tree. -/
theorem Holds.leads_directory {base : List String}
    (hbase : Leads fs.top (fs.startOf root) (base.map encode) location) :
    Leads fs.top (fs.startOf root) ((base ++ front).map encode)
      (location ++ front.map encode) := by
  obtain ⟨directory, hdirectory, -⟩ := exists_directory hfile
  rw [List.map_append]
  exact hbase.append
    (leads_of_get? h.entry h.links (isProper_of_get? h.sound hdirectory) hdirectory)

/-- What is above a file of the tree need not be made. -/
theorem Holds.createParent :
    ∃ above, (root.join (ofNames (front ++ [last]))).parent = some above ∧
      (fs.createDirectory above = .ok fs ∨ ∃ e, fs.createDirectory above = .error e) := by
  have hnames := h.isName hfile
  obtain ⟨base, hne, hsegments, hbase⟩ := leads_base h.text h.leads (by simp) hnames
  rw [← List.append_assoc] at hsegments
  obtain ⟨above, hparent, hreaches⟩ := parent_of_segments hsegments (by simp [hne])
    (hnames last (by simp)).not_blank
  have hstart : fs.startOf above = fs.startOf root := by
    have habsolute := Bool.eq_iff_iff.mpr hreaches.absolute
    rw [← h.startOf_join hnames, FileSystem.startOf, FileSystem.startOf, habsolute]
  have hleads : Leads fs.top (fs.startOf above) (FileSystem.stepsOf above)
      (location ++ front.map encode) := by
    rw [hstart, stepsOf_eq]
    apply (h.leads_directory hfile hbase).congr (isDirectoryAt_of_step (h.step_last hfile))
    rw [filter_isIdle_map_encode, filter_isIdle_map_encode, hreaches.counting]
  exact ⟨above, hparent, createDirectory_of_leads hreaches.text hleads⟩

/-- The write itself sets the file, or is refused. -/
theorem Holds.writeFile (contents : List UInt8) :
    fs.writeFile (root.join (ofNames (front ++ [last]))) contents =
        .ok { fs with
          top := fs.top.set (location ++ (front ++ [last]).map encode) (.file contents) } ∨
      ∃ e, fs.writeFile (root.join (ofNames (front ++ [last]))) contents = .error e := by
  have hnames := h.isName hfile
  obtain ⟨base, -, hsegments, hbase⟩ := leads_base h.text h.leads (by simp) hnames
  have hsteps : FileSystem.stepsOf (root.join (ofNames (front ++ [last]))) =
      (base ++ front).map encode ++ [encode last] := by
    rw [stepsOf_eq, hsegments]
    simp
  have htarget : fs.top.get? (location ++ front.map encode ++ [encode last]) =
      some (.file old) := by
    rw [List.append_assoc, get?_append, h.entry, Option.bind_some, ← hfile, List.map_append]
    rfl
  have hproper := isProper_encode_iff.mpr (hnames last (by simp))
  rw [FileSystem.writeFile, if_neg (text_join_ne_empty h.text (isAbsolute_ofNames hnames)),
    h.startOf_join hnames, hsteps]
  rcases (h.leads_directory hfile hbase).walkToName hproper (h.step_last hfile)
    FileSystem.linkLimit with hwalk | hwalk
  · left
    simp only [hwalk, htarget]
    simp
  · right
    simp only [hwalk]
    exact ⟨_, rfl⟩

end

/-- A file of the tree that is written is set, or the write is refused and changes nothing. -/
theorem attempt_writeFile (h : Holds fs root location tree) {names : List String}
    {old : List UInt8} (hfile : tree.get? (names.map encode) = some (.file old)) (text : String) :
    attempt fs (.writeFile (root.join (ofNames names)) text) =
        ({ fs with top := fs.top.set (location ++ names.map encode) (.file (encode text)) }, none) ∨
      ∃ e, attempt fs (.writeFile (root.join (ofNames names)) text) = (fs, some e) := by
  rcases List.eq_nil_or_concat names with rfl | ⟨front, last, rfl⟩
  · cases Option.some.inj hfile
    cases h.directory
  · rw [List.concat_eq_append] at hfile ⊢
    obtain ⟨above, hparent, hmade | ⟨e, hmade⟩⟩ := h.createParent hfile
    · rcases h.writeFile hfile (encode text) with hwritten | ⟨e, hwritten⟩
      · exact Or.inl (by simp only [attempt, hparent, hmade, hwritten])
      · exact Or.inr ⟨_, by simp only [attempt, hparent, hmade, hwritten]; rfl⟩
    · exact Or.inr ⟨_, by simp only [attempt, hparent, hmade]; rfl⟩

end

/-! ### Trees of the same outlines -/

/-- Two trees with the same names, directories and links: only the contents of files differ. -/
def SameOutlines (a b : Entry) : Prop :=
  ∀ location, (a.get? location).map outline = (b.get? location).map outline

theorem SameOutlines.trans {a b c : Entry} (hab : SameOutlines a b) (hbc : SameOutlines b c) :
    SameOutlines a c := fun location => (hab location).trans (hbc location)

/-- A step only looks at outlines. -/
theorem step_eq_outline (top : Entry) (location : Location) (name : FileName) :
    step top location name =
      match (top.get? location).map outline with
      | some .directory =>
        if name.isEmpty || name = dot then .ok (.here location)
        else if name = dotDot then .ok (.here location.dropLast)
        else
          match (top.get? (location ++ [name])).map outline with
          | none => .error .notFound
          | some (.link target) =>
            .ok (.link (if target.head? = some slash then [] else location) (pieces target))
          | some _ => .ok (.here (location ++ [name]))
      | some _ => .error .notDirectory
      | none => .error .notFound := by
  rw [step, get?_append]
  cases top.get? location with
  | none => rfl
  | some e =>
      cases e with
      | file contents => rfl
      | link target => rfl
      | directory entries =>
          have hlookup : (Entry.directory entries).get? [name] = entries.lookup name := by
            rw [get?]
            cases entries.lookup name <;> rfl
          simp only [Option.bind_some, Option.map_some, hlookup, outline]
          cases entries.lookup name with
          | none => rfl
          | some child => cases child <;> rfl

section

variable {top top' : Entry} (h : SameOutlines top top')

include h

theorem SameOutlines.step_eq (location : Location) (name : FileName) :
    step top location name = step top' location name := by
  rw [step_eq_outline, step_eq_outline, h location, h (location ++ [name])]

theorem SameOutlines.advance_eq (location : Location) (steps : List FileName) :
    advance top location steps = advance top' location steps := by
  induction steps generalizing location with
  | nil => rfl
  | cons name rest ih => simp only [advance, h.step_eq, ih]

theorem SameOutlines.walk_eq (links : Nat) (location : Location) (steps : List FileName) :
    walk top links location steps = walk top' links location steps := by
  have hadvance : advance top = advance top' := funext₂ h.advance_eq
  rw [walk, walk, hadvance]

theorem SameOutlines.leads {location target : Location} {steps : List FileName}
    (hleads : Leads top location steps target) : Leads top' location steps target := by
  induction hleads with
  | done location => exact .done location
  | here hstep _ ih => exact .here ((h.step_eq _ _).symm.trans hstep) ih
  | link hstep _ ih => exact .link ((h.step_eq _ _).symm.trans hstep) ih

end

/-- Where no links are, writing a file makes none. -/
theorem no_links_set {tree : Entry} {location : Location} {old : List UInt8}
    (hlinks : ∀ l t, tree.get? l ≠ some (.link t))
    (hfile : tree.get? location = some (.file old)) (new : List UInt8) :
    ∀ l t, (tree.set location (.file new)).get? l ≠ some (.link t) := by
  intro l t hl
  have houtline := outline_set hfile new l
  rw [hl] at houtline
  cases hget : tree.get? l with
  | none =>
      rw [hget] at houtline
      cases houtline
  | some e =>
      rw [hget] at houtline
      cases e with
      | file contents => cases houtline
      | directory entries => cases houtline
      | link target => exact hlinks l target hget

/-! ### A run of writes -/

section

variable {fs : FileSystem} {root : Path} {location : Location} {tree : Entry}

/-- After a write, the file system holds the tree with the new file. -/
theorem Holds.write (h : Holds fs root location tree) {names : List String} {old : List UInt8}
    (hfile : tree.get? (names.map encode) = some (.file old)) (new : List UInt8) :
    Holds { fs with top := fs.top.set (location ++ names.map encode) (.file new) } root location
      (tree.set (names.map encode) (.file new)) where
  text := h.text
  leads := by
    have hplace : fs.top.get? (location ++ names.map encode) = some (.file old) := by
      rw [get?_append, h.entry, Option.bind_some, hfile]
    exact SameOutlines.leads (fun l => (outline_set hplace new l).symm) h.leads
  entry := get?_set_append h.entry hfile new
  directory := by rw [isDirectory_set hfile, h.directory]
  sound := isSound_set h.sound hfile new
  links := no_links_set h.links hfile new

/-- The call that writes a text to the file of some names below the root. -/
def writeCall (root : Path) (write : List String × String) : WriteCall :=
  .writeFile (root.join (ofNames write.1)) write.2

/-- A visited file after some writes. -/
def rewritten (writes : List (List String × String)) (v : Visited) : Visited :=
  match writes.lookup v.names with
  | some text => { v with contents := encode text }
  | none => v

/-- What some writes below a root have made of a file system and of the tree it holds. -/
structure Rewrites (root : Path) (location : Location) (writes : List (List String × String))
    (fs : FileSystem) (tree : Entry) (fs' : FileSystem) (tree' : Entry) : Prop where
  holds : Holds fs' root location tree'
  cwd : fs'.cwd = fs.cwd
  outlines : SameOutlines fs'.top fs.top
  others : ∀ l, (∀ w ∈ writes, l ≠ location ++ w.1.map encode) →
    fs'.top.fileAt l = fs.top.fileAt l
  visited : visitedFiles tree' = (visitedFiles tree).map (rewritten writes)

theorem rewrites_nil (h : Holds fs root location tree) :
    Rewrites root location [] fs tree fs tree where
  holds := h
  cwd := rfl
  outlines _ := rfl
  others _ _ := rfl
  visited := by
    have hid : rewritten [] = id := rfl
    rw [hid, List.map_id]

/-- Writing once more, where writes to the same file write the same. -/
theorem Rewrites.cons (h : Holds fs root location tree) {write : List String × String}
    {writes : List (List String × String)} {old : List UInt8}
    (hfile : tree.get? (write.1.map encode) = some (.file old))
    (hsame : ∀ w ∈ writes, w.1 = write.1 → w.2 = write.2) {fs' : FileSystem} {tree' : Entry}
    (hrest : Rewrites root location writes
      { fs with top := fs.top.set (location ++ write.1.map encode) (.file (encode write.2)) }
      (tree.set (write.1.map encode) (.file (encode write.2))) fs' tree') :
    Rewrites root location (write :: writes) fs tree fs' tree' := by
  have hplace : fs.top.get? (location ++ write.1.map encode) = some (.file old) := by
    rw [get?_append, h.entry, Option.bind_some, hfile]
  refine ⟨hrest.holds, hrest.cwd, hrest.outlines.trans (outline_set hplace _), ?_, ?_⟩
  · intro l hl
    rw [hrest.others l fun w hw => hl w (List.mem_cons_of_mem write hw)]
    exact (fileAt_set hplace _ l).trans (if_neg (hl write List.mem_cons_self))
  · rw [hrest.visited, visitedFiles_set h.sound hfile, List.map_map]
    apply List.map_congr_left
    rintro ⟨names, contents⟩ -
    by_cases hnames : names = write.1
    · subst hnames
      have hlookup : (write :: writes).lookup write.1 = some write.2 := List.lookup_cons_self
      rw [Function.comp_apply, if_pos rfl]
      simp only [rewritten, hlookup]
      cases hmore : writes.lookup write.1 with
      | none => rfl
      | some text =>
          have htext : text = write.2 := hsame _ (mem_of_lookup hmore) rfl
          rw [htext]
    · have hbeq : (names == write.1) = false := by simpa using hnames
      rw [Function.comp_apply, if_neg hnames]
      have hlookup : (write :: writes).lookup names = writes.lookup names := by
        rw [List.lookup_cons, hbeq]
      simp only [rewritten, hlookup]

/-- Writes to files of the tree, none of which is refused, rewrite these files and nothing else. -/
theorem perform_writes (h : Holds fs root location tree) {writes : List (List String × String)}
    (hfiles : ∀ w ∈ writes, ∃ old, tree.get? (w.1.map encode) = some (.file old))
    (hsame : ∀ w ∈ writes, ∀ w' ∈ writes, w.1 = w'.1 → w.2 = w'.2)
    (hdone : (perform attempt (writes.map (writeCall root)) fs).error = none) :
    ∃ tree', Rewrites root location writes fs tree
      (perform attempt (writes.map (writeCall root)) fs).state tree' := by
  induction writes generalizing fs tree with
  | nil => exact ⟨tree, rewrites_nil h⟩
  | cons write writes ih =>
      obtain ⟨old, hfile⟩ := hfiles write List.mem_cons_self
      rcases attempt_writeFile h hfile write.2 with hset | ⟨e, hrefused⟩
      · rw [List.map_cons, perform, writeCall, hset] at hdone ⊢
        have hfiles' : ∀ w ∈ writes, ∃ old', (tree.set (write.1.map encode)
            (.file (encode write.2))).get? (w.1.map encode) = some (.file old') := by
          intro w hw
          obtain ⟨old', hold⟩ := hfiles w (List.mem_cons_of_mem write hw)
          have hnew := fileAt_set hfile (encode write.2) (w.1.map encode)
          rw [fileAt_eq_some_iff.mpr hold] at hnew
          split at hnew
          · exact ⟨_, fileAt_eq_some_iff.mp hnew⟩
          · exact ⟨_, fileAt_eq_some_iff.mp hnew⟩
        obtain ⟨tree', htree⟩ := ih (h.write hfile (encode write.2)) hfiles'
          (fun w hw w' hw' => hsame w (List.mem_cons_of_mem write hw) w'
            (List.mem_cons_of_mem write hw')) hdone
        refine ⟨tree', Rewrites.cons h hfile ?_ htree⟩
        intro w hw hnames
        exact hsame w (List.mem_cons_of_mem write hw) write List.mem_cons_self hnames
      · rw [List.map_cons, perform, writeCall, hrefused] at hdone
        cases hdone

end

end PubSweep.Files
