import PubSweep.Proofs.Files.Growth

/-!
Making calls once more.

Paths lead to the same places in a file system that has grown (`Grown.leads`).  So what was needed
for a call to go well is there ever after: `Accepts` is this need, `isWritten_of_perform` says that
it is met behind calls that went well, and `perform_of_accepts` that calls go well where it is met.
`artifactCalls_again` says so of reports.
-/

namespace PubSweep.Files

open Entry PubSweep.Path

/-! ### Paths in a grown file system -/

section

variable {fs : FileSystem} {path : Path}

theorem FileSystem.Plain.locate_eq_ok_iff (h : fs.Plain) {location : Location} :
    fs.locate path = .ok location ↔ path.text ≠ "" ∧
      Leads fs.top (fs.startOf path) (FileSystem.stepsOf path) location := by
  rw [FileSystem.locate]
  by_cases htext : path.text = ""
  · simp [htext]
  · rw [if_neg htext, walk_eq_ok_iff h.links]
    simp [htext]

theorem isDirectory_iff :
    fs.isDirectory path = true ↔
      ∃ location, fs.locate path = .ok location ∧ IsDirectoryAt fs.top location := by
  rw [FileSystem.isDirectory, FileSystem.entry?]
  rcases fs.locate path with e | location
  · simp
  · simp [IsDirectoryAt]

end

theorem isDirectory_iff_outline {e : Entry} : e.isDirectory = true ↔ e.outline = .directory := by
  cases e <;> simp [isDirectory, outline]

theorem isDirectoryAt_iff_outline {top : Entry} {location : Location} :
    IsDirectoryAt top location ↔ (top.get? location).map outline = some .directory := by
  rw [IsDirectoryAt]
  rcases top.get? location with _ | e
  · simp
  · simp [isDirectory_iff_outline]

section

variable {touched : FileName → Prop} {fs fs' : FileSystem} (h : Grown touched fs fs')

include h

theorem Grown.startOf (path : Path) : fs'.startOf path = fs.startOf path := by
  rw [FileSystem.startOf, FileSystem.startOf, h.cwd]

theorem Grown.isDirectoryAt {location : Location} (hdirectory : IsDirectoryAt fs.top location) :
    IsDirectoryAt fs'.top location := by
  rw [isDirectoryAt_iff_outline] at hdirectory ⊢
  exact h.kept location _ hdirectory

theorem Grown.step {location : Location} {name : FileName} {arrival : Arrival Location}
    (hstep : step fs.top location name = .ok arrival) :
    step fs'.top location name = .ok arrival := by
  have hdirectory := isDirectoryAt_iff_outline.mp (isDirectoryAt_of_step hstep)
  rw [step_eq_outline, hdirectory] at hstep
  rw [step_eq_outline, h.kept location _ hdirectory]
  dsimp only at hstep ⊢
  by_cases hidle : (name.isEmpty || name = dot) = true
  · rw [if_pos hidle] at hstep ⊢
    exact hstep
  · rw [if_neg hidle] at hstep ⊢
    by_cases hdots : name = dotDot
    · rw [if_pos hdots] at hstep ⊢
      exact hstep
    · rw [if_neg hdots] at hstep ⊢
      rcases houtline : (fs.top.get? (location ++ [name])).map outline with _ | o
      · rw [houtline] at hstep
        cases hstep
      · rw [houtline] at hstep
        rw [h.kept _ o houtline]
        exact hstep

/-- Paths lead to where they led. -/
theorem Grown.leads {location target : Location} {steps : List FileName}
    (hleads : Leads fs.top location steps target) : Leads fs'.top location steps target := by
  induction hleads with
  | done location => exact .done location
  | here hstep _ ih => exact .here (h.step hstep) ih
  | link hstep _ ih => exact .link (h.step hstep) ih

variable (hplain : fs.Plain) {path : Path}

include hplain

theorem Grown.locate {location : Location} (hlocate : fs.locate path = .ok location) :
    fs'.locate path = .ok location := by
  obtain ⟨htext, hleads⟩ := hplain.locate_eq_ok_iff.mp hlocate
  refine h.plain.locate_eq_ok_iff.mpr ⟨htext, ?_⟩
  rw [h.startOf]
  exact h.leads hleads

theorem Grown.isDirectory (hdirectory : fs.isDirectory path = true) :
    fs'.isDirectory path = true := by
  obtain ⟨location, hlocate, hdirectory⟩ := isDirectory_iff.mp hdirectory
  exact isDirectory_iff.mpr
    ⟨location, h.locate hplain hlocate, h.isDirectoryAt hdirectory⟩

theorem Grown.walkToName {location : Location} {name : FileName}
    (hwalk : walkToName fs.top FileSystem.linkLimit (fs.startOf path) (FileSystem.stepsOf path) =
      .ok (location, name)) :
    walkToName fs'.top FileSystem.linkLimit (fs'.startOf path) (FileSystem.stepsOf path) =
      .ok (location, name) := by
  obtain ⟨front, hsteps, hname, hleads, hdirectory⟩ :=
    (walkToName_eq_ok_iff hplain.links).mp hwalk
  rw [h.startOf]
  exact (walkToName_eq_ok_iff h.plain.links).mpr
    ⟨front, hsteps, hname, h.leads hleads, h.isDirectoryAt hdirectory⟩

end

/-! ### What calls need -/

/-- Whether a directory need not be made; the empty path is the working directory. -/
def IsMade (fs : FileSystem) (path : Path) : Prop := path.text = "" ∨ fs.isDirectory path = true

/-- Whether a file is there to be written, and the directory above it. -/
structure IsWritten (fs : FileSystem) (path : Path) : Prop where
  parent : ∀ above, path.parent = some above → IsMade fs above
  text : path.text ≠ ""
  file : ∃ directory name,
    walkToName fs.top FileSystem.linkLimit (fs.startOf path) (FileSystem.stepsOf path) =
      .ok (directory, name) ∧
    (fs.top.get? (directory ++ [name])).map outline = some .file

/-- Whether what a call makes or writes is there. -/
def Accepts (fs : FileSystem) : WriteCall → Prop
  | .makeDirectory path => IsMade fs path
  | .writeFile path _ => IsWritten fs path

section

variable {touched : FileName → Prop} {fs fs' : FileSystem} {path : Path}

theorem IsMade.grown (h : Grown touched fs fs') (hplain : fs.Plain) (hmade : IsMade fs path) :
    IsMade fs' path := hmade.imp_right (h.isDirectory hplain)

theorem Accepts.grown (h : Grown touched fs fs') (hplain : fs.Plain) {call : WriteCall}
    (haccepts : Accepts fs call) : Accepts fs' call := by
  rcases call with path | ⟨path, contents⟩
  · exact IsMade.grown h hplain haccepts
  · obtain ⟨hparent, htext, directory, name, hwalk, hfile⟩ := haccepts
    exact ⟨fun above habove => (hparent above habove).grown h hplain, htext, directory, name,
      h.walkToName hplain hwalk, h.kept _ _ hfile⟩

/-- A directory that is there need not be made. -/
theorem IsMade.createDirectory (hplain : fs.Plain) (hmade : IsMade fs path) :
    fs.createDirectory path = .ok fs := by
  rw [FileSystem.createDirectory, FileSystem.makeDirectories]
  rcases hmade with hempty | hdirectory
  · rw [if_pos hempty]
  · obtain ⟨location, hlocate, -⟩ := isDirectory_iff.mp hdirectory
    obtain ⟨htext, hleads⟩ := hplain.locate_eq_ok_iff.mp hlocate
    obtain ⟨e, hmake, hne⟩ := makeDirectory_of_leads htext hleads
    rw [if_neg htext, hmake]
    rcases e
    · exact absurd rfl hne
    all_goals exact if_pos hdirectory

/-- What calls need to go well. -/
theorem attempt_of_accepts (hplain : fs.Plain) {call : WriteCall} (haccepts : Accepts fs call) :
    ∃ fs', attempt fs call = (fs', none) := by
  rcases call with path | ⟨path, contents⟩
  · exact ⟨fs, by rw [attempt, IsMade.createDirectory hplain haccepts]⟩
  · obtain ⟨hparent, htext, directory, name, hwalk, hfile⟩ := haccepts
    obtain ⟨e, hget, houtline⟩ := Option.map_eq_some_iff.mp hfile
    have hwritten : fs.writeFile path (encode contents) =
        .ok { fs with top := fs.top.set (directory ++ [name]) (.file (encode contents)) } := by
      rw [FileSystem.writeFile, if_neg htext, hwalk]
      simp only [hget]
      rcases e with old | entries | target
      · rfl
      · cases houtline
      · cases houtline
    rcases habove : path.parent with _ | above
    · exact ⟨_, by simp only [attempt, habove, hwritten]; rfl⟩
    · have hmade := (hparent above habove).createDirectory hplain
      exact ⟨_, by simp only [attempt, habove, hmade, hwritten]; rfl⟩

/-- Calls whose needs are met go well. -/
theorem perform_of_accepts (hplain : fs.Plain) {calls : List WriteCall}
    (haccepts : ∀ call ∈ calls, Accepts fs call) : (perform attempt calls fs).error = none := by
  induction calls generalizing fs with
  | nil => rfl
  | cons call calls ih =>
      rw [List.forall_mem_cons] at haccepts
      obtain ⟨between, hattempt⟩ := attempt_of_accepts hplain haccepts.1
      have hgrown := attempt_grown hplain (touches_any call) hattempt
      rw [perform, hattempt]
      exact ih hgrown.plain fun other hother => (haccepts.2 other hother).grown hgrown hplain

/-! ### What is there behind calls -/

/-- The directory above a file that can be written is there. -/
theorem isMade_parent (hplain : fs.Plain) {directory : Location} {name : FileName}
    (hwalk : walkToName fs.top FileSystem.linkLimit (fs.startOf path) (FileSystem.stepsOf path) =
      .ok (directory, name))
    {above : Path} (habove : path.parent = some above) : IsMade fs above := by
  obtain ⟨front, hsteps, ⟨hidle, -⟩, hleads, hdirectory⟩ :=
    (walkToName_eq_ok_iff hplain.links).mp hwalk
  rw [stepsOf_eq, List.map_eq_append_iff] at hsteps
  obtain ⟨before, last, hsegments, rfl, hlast⟩ := hsteps
  obtain ⟨last, rfl, rfl⟩ := List.map_eq_singleton_iff.mp hlast
  have hblank : isBlank last = false := by
    rw [← isIdle_encode]
    exact hidle
  -- above a name that stands alone is the empty path, which is not looked up
  rcases before with _ | ⟨first, rest⟩
  · left
    have hparts : path.parts = ⟨.plain, [] ++ [last]⟩ := by
      rw [isBlank, Bool.or_eq_false_iff, decide_eq_false_iff_not, decide_eq_false_iff_not] at hblank
      rw [parts_eq, hsegments]
      exact partsOf_plain hblank.1 hblank.2 []
    cases habove.symm.trans (parent_eq hparts hblank)
    rfl
  · right
    obtain ⟨q, hq, hreaches⟩ := parent_of_segments hsegments (List.cons_ne_nil first rest) hblank
    cases habove.symm.trans hq
    have hstart : fs.startOf above = fs.startOf path := by
      rw [FileSystem.startOf, FileSystem.startOf, Bool.eq_iff_iff.mpr hreaches.absolute]
    refine isDirectory_iff.mpr ⟨directory, hplain.locate_eq_ok_iff.mpr ⟨hreaches.text, ?_⟩,
      hdirectory⟩
    rw [hstart, stepsOf_eq]
    apply hleads.congr hdirectory
    rw [filter_isIdle_map_encode, filter_isIdle_map_encode, hreaches.counting]

/-- So is a directory if a file in it can be written. -/
theorem IsWritten.isMade (hplain : fs.Plain) {name : String} (hname : IsName name)
    (h : IsWritten fs (path.join ⟨name⟩)) : IsMade fs path := by
  by_cases htext : path.text = ""
  · exact Or.inl htext
  · right
    obtain ⟨directory, last, hwalk, -⟩ := h.file
    obtain ⟨front, hsteps, -, hleads, hdirectory⟩ :=
      (walkToName_eq_ok_iff hplain.links).mp hwalk
    have hnames : ∀ s ∈ [name], IsName s := List.forall_mem_singleton.mpr hname
    have hpath : (⟨name⟩ : Path) = ofNames [name] := by
      rw [ofNames, String.intercalate_singleton]
    rw [hpath] at hsteps hleads
    obtain ⟨base, -, hsegments, hjoin⟩ := segments_join htext (List.cons_ne_nil name []) hnames
    rw [stepsOf_eq, hjoin, List.map_append] at hsteps
    obtain ⟨rfl, -⟩ := List.append_inj' hsteps rfl
    rw [FileSystem.startOf, isAbsolute_join htext (isAbsolute_ofNames hnames)] at hleads
    refine isDirectory_iff.mpr ⟨directory, hplain.locate_eq_ok_iff.mpr ⟨htext, ?_⟩, hdirectory⟩
    rw [stepsOf_eq]
    rcases hsegments with ⟨hsame, -⟩ | hslash
    · rw [hsame]
      exact hleads
    · rw [hslash, List.map_append]
      exact hleads.append (.here (step_of_isIdle hdirectory rfl) (.done directory))

/-- A file that was written is there. -/
theorem isWritten_of_attempt (hplain : fs.Plain) {text : String}
    (hdone : attempt fs (.writeFile path text) = (fs', none)) : IsWritten fs' path := by
  obtain ⟨between, hgrown, hwritten⟩ :=
    @exists_of_attempt_writeFile (fun _ => True) _ _ hplain _ _ hdone
  have hbetween := hgrown.plain
  have hnext : Grown (fun _ => True) between fs' :=
    writeFile_grown hbetween hwritten fun _ _ => trivial
  obtain ⟨directory, entries, name, hwalk, htext, hget, -, rfl⟩ :=
    exists_of_writeFile hbetween hwritten
  refine ⟨?_, htext, directory, name, hnext.walkToName hbetween hwalk, ?_⟩
  · intro above habove
    exact (isMade_parent hbetween hwalk habove).grown hnext hbetween
  · rw [get?_set_concat hget]
    rfl

/-- Behind calls that went well, all files are there that were written. -/
theorem isWritten_of_perform (hplain : fs.Plain) {calls : List WriteCall}
    (hdone : (perform attempt calls fs).error = none) {text : String}
    (hcall : .writeFile path text ∈ calls) : IsWritten (perform attempt calls fs).state path := by
  induction calls generalizing fs with
  | nil => cases hcall
  | cons call calls ih =>
      rcases hattempt : attempt fs call with ⟨between, _ | e⟩
      · have hgrown := attempt_grown hplain (touches_any call) hattempt
        rw [perform, hattempt] at hdone ⊢
        rcases List.mem_cons.mp hcall with rfl | hcall
        · have hrest := perform_grown hgrown.plain (fun other _ => touches_any other) hdone
          have hwritten : Accepts between (.writeFile path text) :=
            isWritten_of_attempt hplain hattempt
          exact hwritten.grown hrest hgrown.plain
        · exact ih hgrown.plain hdone hcall
      · rw [perform, hattempt] at hdone
        cases hdone

end

/-! ### Reports -/

/-- The names of the files with the report and the patch. -/
def artifactNames : List String := ["report.json", "report.md", "patch.diff"]

theorem isName_of_mem_artifactNames : ∀ name ∈ artifactNames, IsName name := by decide

/-- The calls that write a report make its directory and write these files. -/
theorem mem_artifactCalls {o : Outcome} {directory : Path} {call : WriteCall}
    (h : call ∈ o.artifactCalls directory) :
    call = .makeDirectory directory ∨
      ∃ name ∈ artifactNames, ∃ text, call = .writeFile (directory.join ⟨name⟩) text := by
  simp only [Outcome.artifactCalls, List.mem_cons, List.not_mem_nil, or_false] at h
  rcases h with rfl | rfl | rfl | rfl
  · exact Or.inl rfl
  all_goals exact Or.inr ⟨_, by decide, _, rfl⟩

theorem exists_mem_artifactCalls (o : Outcome) (directory : Path) :
    ∀ name ∈ artifactNames, ∃ text,
      .writeFile (directory.join ⟨name⟩) text ∈ o.artifactCalls directory := by
  intro name hname
  simp only [artifactNames, List.mem_cons, List.not_mem_nil, or_false] at hname
  rcases hname with rfl | rfl | rfl
  · exact ⟨_, .tail _ (.head _)⟩
  · exact ⟨_, .tail _ (.tail _ (.head _))⟩
  · exact ⟨_, .tail _ (.tail _ (.tail _ (.head _)))⟩

/-- Writing a report touches these files. -/
theorem artifactCalls_grown {fs : FileSystem} (hplain : fs.Plain) {directory : Path} {o : Outcome}
    (hdone : (perform attempt (o.artifactCalls directory) fs).error = none) :
    Grown (fun name => ∃ s ∈ artifactNames, name = encode s) fs
      (perform attempt (o.artifactCalls directory) fs).state := by
  refine perform_grown hplain ?_ hdone
  intro call hcall
  rcases mem_artifactCalls hcall with rfl | ⟨name, hname, text, rfl⟩
  · trivial
  · have hpath : (⟨name⟩ : Path) = ofNames [name] := by
      rw [ofNames, String.intercalate_singleton]
    rw [hpath]
    exact touches_writeFile directory
      (List.forall_mem_singleton.mpr (isName_of_mem_artifactNames name hname)) rfl
      ⟨name, hname, rfl⟩ text

/-- A report that was written can be written again, whatever it says. -/
theorem artifactCalls_again {touched : FileName → Prop} {fs fs' : FileSystem} (hplain : fs.Plain)
    {directory : Path} {o : Outcome}
    (hdone : (perform attempt (o.artifactCalls directory) fs).error = none)
    (h : Grown touched (perform attempt (o.artifactCalls directory) fs).state fs') (o' : Outcome) :
    (perform attempt (o'.artifactCalls directory) fs').error = none := by
  have hbetween := (perform_grown hplain (fun call _ => touches_any call) hdone).plain
  have hwritten : ∀ name ∈ artifactNames,
      IsWritten (perform attempt (o.artifactCalls directory) fs).state (directory.join ⟨name⟩) := by
    intro name hname
    obtain ⟨text, hcall⟩ := exists_mem_artifactCalls o directory name hname
    exact isWritten_of_perform hplain hdone hcall
  refine perform_of_accepts h.plain fun call hcall => Accepts.grown h hbetween ?_
  rcases mem_artifactCalls hcall with rfl | ⟨name, hname, text, rfl⟩
  · exact (hwritten "report.json" (by decide)).isMade hbetween (by decide)
  · exact hwritten name hname

end PubSweep.Files
