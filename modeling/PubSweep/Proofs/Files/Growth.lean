import PubSweep.Proofs.Files.Writing

/-!
File systems that grow.

Where there are no links, making directories and writing files adds entries and gives files other
contents, and that is all: `Grown` says so, with the names of the files that may have other
contents.  One call has this effect (`attempt_grown`), and so has a run of calls (`perform_grown`).
-/

namespace PubSweep.Files

open Entry PubSweep.Path

/-! ### Setting an entry -/

namespace Entry

/-- An entry without what is in it. -/
def bare : Entry → Entry
  | directory _ => directory []
  | e => e

/-- Outlines and contents of files are left. -/
theorem outline_congr {found found' : Option Entry} (h : found'.map bare = found.map bare) :
    found'.map outline = found.map outline := by
  have houtline : outline = outline ∘ bare := by
    funext e
    cases e <;> rfl
  rw [houtline, ← Option.map_map, h, Option.map_map]

theorem fileAt_congr {e e' : Entry} {location : Location}
    (h : (e'.get? location).map bare = (e.get? location).map bare) :
    e'.fileAt location = e.fileAt location := by
  have hfile : ∀ (e : Entry) contents, e.fileAt location = some contents ↔
      (e.get? location).map bare = some (.file contents) := by
    intro e contents
    rw [fileAt_eq_some_iff]
    rcases e.get? location with _ | found | entries | target <;> simp [bare]
  apply Option.ext
  intro contents
  rw [hfile, hfile, h]

theorem get?_cons_of_not_directory {e : Entry} (h : e.isDirectory = false) (name : FileName)
    (rest : Location) : e.get? (name :: rest) = none := by
  cases e with
  | file contents => rfl
  | link target => rfl
  | directory entries => cases h

theorem put_self {entries : List (FileName × Entry)} {name : FileName} {child : Entry}
    (h : entries.lookup name = some child) : put name child entries = entries := by
  induction entries with
  | nil => cases h
  | cons head rest ih =>
      obtain ⟨first, old⟩ := head
      rw [put]
      by_cases hfirst : first = name
      · subst hfirst
        rw [List.lookup_cons_self, Option.some.injEq] at h
        rw [if_pos rfl, h]
      · have hbeq : (name == first) = false := by simpa using Ne.symm hfirst
        rw [List.lookup_cons, hbeq] at h
        rw [if_neg hfirst, ih h]

section

variable {e new : Entry} {above : Location} {name : FileName} {entries : List (FileName × Entry)}

/-- Nothing is set in a directory that is not there. -/
theorem set_concat_of_get?_eq_none (h : e.get? above = none) :
    e.set (above ++ [name]) new = e := by
  induction above generalizing e with
  | nil => cases h
  | cons first above ih =>
      cases e with
      | file contents => rfl
      | link target => rfl
      | directory entries =>
          cases hchild : entries.lookup first with
          | none =>
              obtain ⟨next, rest, hrest⟩ := List.exists_cons_of_ne_nil
                (List.append_ne_nil_of_right_ne_nil above (List.cons_ne_nil name []))
              simp only [List.cons_append, hrest, set, hchild]
          | some child =>
              rw [get?, hchild, Option.bind_some] at h
              rw [List.cons_append, set_cons hchild, ih h, put_self hchild]

theorem get?_set_concat (habove : e.get? above = some (.directory entries)) :
    (e.set (above ++ [name]) new).get? (above ++ [name]) = some new := by
  induction above generalizing e with
  | nil =>
      cases Option.some.inj habove
      rw [List.nil_append, set, get?, lookup_put, if_pos rfl]
      rfl
  | cons head above ih =>
      obtain ⟨inner, child, rfl, hchild, hrest⟩ := get?_cons_eq_some habove
      rw [List.cons_append, set_cons hchild, get?, lookup_put, if_pos rfl, Option.bind_some,
        ih hrest]

/-- An entry with nothing in it is set in a directory that holds no directory of its name: all other
entries are what they were. -/
theorem bare_set (habove : e.get? above = some (.directory entries)) (hnew : new.bare = new)
    (hold : ∀ child, entries.lookup name = some child → child.isDirectory = false)
    {other : Location} (hother : other ≠ above ++ [name]) :
    ((e.set (above ++ [name]) new).get? other).map bare = (e.get? other).map bare := by
  induction above generalizing e other with
  | nil =>
      cases Option.some.inj habove
      rw [List.nil_append, set]
      rcases other with _ | ⟨first, others⟩
      · rfl
      · rw [get?, get?, lookup_put]
        by_cases hfirst : first = name
        · subst hfirst
          have hne : others ≠ [] := fun hnil => hother (by rw [hnil, List.nil_append])
          obtain ⟨next, others, rfl⟩ := List.exists_cons_of_ne_nil hne
          have hinside : new.get? (next :: others) = none := by
            rw [← hnew]
            cases new <;> rfl
          have hbefore : (entries.lookup first).bind (get? (next :: others)) = none := by
            rw [Option.bind_eq_none_iff]
            exact fun child hchild => get?_cons_of_not_directory (hold child hchild) next others
          rw [if_pos rfl, Option.bind_some, hinside, hbefore]
        · rw [if_neg hfirst]
  | cons head above ih =>
      obtain ⟨inner, child, rfl, hchild, hrest⟩ := get?_cons_eq_some habove
      rw [List.cons_append, set_cons hchild]
      rcases other with _ | ⟨first, others⟩
      · rfl
      · rw [get?, get?, lookup_put]
        by_cases hfirst : first = head
        · subst hfirst
          rw [if_pos rfl, hchild]
          exact ih hrest fun hothers => hother (by rw [hothers, List.cons_append])
        · rw [if_neg hfirst]

theorem isSound_set_concat (hsound : e.isSound = true)
    (habove : e.get? above = some (.directory entries)) (hname : isProper name = true)
    (hnew : new.isSound = true) : (e.set (above ++ [name]) new).isSound = true := by
  induction above generalizing e with
  | nil =>
      cases Option.some.inj habove
      exact areSound_put hsound hname hnew
  | cons head above ih =>
      obtain ⟨inner, child, rfl, hchild, hrest⟩ := get?_cons_eq_some habove
      have hmem := mem_of_lookup hchild
      rw [List.cons_append, set_cons hchild]
      exact areSound_put hsound (isProper_of_mem hsound hmem)
        (ih (isSound_of_mem hsound hmem) hrest)

end

end Entry

/-! ### Growth -/

/-- A file system with a sound tree and without links. -/
structure FileSystem.Plain (fs : FileSystem) : Prop where
  sound : fs.top.isSound = true
  links : ∀ l t, fs.top.get? l ≠ some (.link t)

/-- A file system and a later one: entries are still what they were, and only files whose names are
touched may be new or have other contents. -/
structure Grown (touched : FileName → Prop) (fs fs' : FileSystem) : Prop where
  cwd : fs'.cwd = fs.cwd
  plain : fs'.Plain
  kept : ∀ l o, (fs.top.get? l).map outline = some o → (fs'.top.get? l).map outline = some o
  others : ∀ l, (∀ name, l.getLast? = some name → ¬ touched name) →
    fs'.top.fileAt l = fs.top.fileAt l

section

variable {touched : FileName → Prop} {fs fs' fs'' : FileSystem}

theorem Grown.refl (h : fs.Plain) : Grown touched fs fs :=
  ⟨rfl, h, fun _ _ ho => ho, fun _ _ => rfl⟩

theorem Grown.trans (h : Grown touched fs fs') (h' : Grown touched fs' fs'') :
    Grown touched fs fs'' where
  cwd := h'.cwd.trans h.cwd
  plain := h'.plain
  kept l o ho := h'.kept l o (h.kept l o ho)
  others l hl := (h'.others l hl).trans (h.others l hl)

section

variable {above : Location} {name : FileName} {entries : List (FileName × Entry)}
  (h : fs.Plain) (habove : fs.top.get? above = some (.directory entries))
  (hname : isProper name = true)

include h habove hname

theorem FileSystem.Plain.set {new : Entry} (hnew : new.bare = new)
    (hold : ∀ child, entries.lookup name = some child → child.isDirectory = false)
    (hsound : new.isSound = true) (hlink : ∀ t, new ≠ .link t) :
    FileSystem.Plain { fs with top := fs.top.set (above ++ [name]) new } where
  sound := isSound_set_concat h.sound habove hname hsound
  links l t hl := by
    by_cases hthere : l = above ++ [name]
    · rw [hthere, get?_set_concat habove] at hl
      exact hlink t (Option.some.inj hl)
    · have hbare := bare_set habove hnew hold hthere
      rw [hl] at hbare
      obtain ⟨e, hget, hlinked⟩ := Option.map_eq_some_iff.mp hbare.symm
      rcases e with contents | inner | target
      · cases hlinked
      · cases hlinked
      · exact h.links l target hget

/-- A file system grows if a directory is made in it, -/
theorem grown_directory (hnone : entries.lookup name = none) :
    Grown touched fs { fs with top := fs.top.set (above ++ [name]) (.directory []) } := by
  have hold : ∀ child, entries.lookup name = some child → child.isDirectory = false := by
    simp [hnone]
  have hbefore : fs.top.get? (above ++ [name]) = none := by
    rw [get?_append, habove, Option.bind_some, get?, hnone, Option.bind_none]
  refine ⟨rfl, h.set habove hname rfl hold rfl (by simp), ?_, ?_⟩
  · intro l o ho
    by_cases hthere : l = above ++ [name]
    · rw [hthere, hbefore] at ho
      cases ho
    · exact (outline_congr (bare_set habove rfl hold hthere)).trans ho
  · intro l _
    by_cases hthere : l = above ++ [name]
    · rw [hthere, fileAt, fileAt, get?_set_concat habove, hbefore]
    · exact fileAt_congr (bare_set habove rfl hold hthere)

/-- and if a file is written that is touched. -/
theorem grown_file (hold : ∀ child, entries.lookup name = some child → child.isDirectory = false)
    (htouched : touched name) (contents : List UInt8) :
    Grown touched fs { fs with top := fs.top.set (above ++ [name]) (.file contents) } := by
  refine ⟨rfl, h.set habove hname rfl hold rfl (by simp), ?_, ?_⟩
  · intro l o ho
    by_cases hthere : l = above ++ [name]
    · subst hthere
      obtain ⟨child, hget, rfl⟩ := Option.map_eq_some_iff.mp ho
      have hlookup : entries.lookup name = some child := by
        rw [get?_append, habove, Option.bind_some, get?, Option.bind_eq_some_iff] at hget
        obtain ⟨found, hlookup, hfound⟩ := hget
        rw [hlookup, ← hfound]
        rfl
      rw [get?_set_concat habove]
      rcases child with old | inner | target
      · rfl
      · cases hold _ hlookup
      · exact absurd hget (h.links _ target)
    · exact (outline_congr (bare_set habove rfl hold hthere)).trans ho
  · intro l hl
    apply fileAt_congr
    apply bare_set habove rfl hold
    rintro rfl
    exact hl name List.getLast?_concat htouched

end

/-! ### Calls -/

/-- A step that is neither idle nor leads up is a name that a directory can hold. -/
theorem isProper_of_mem_stepsOf {path : Path} {name : FileName}
    (hmem : name ∈ FileSystem.stepsOf path) (hidle : isIdle name = false) (hdots : name ≠ dotDot) :
    isProper name = true := by
  rw [stepsOf_eq, List.mem_map] at hmem
  obtain ⟨s, hs, rfl⟩ := hmem
  rw [isProper_encode_iff]
  rw [isIdle_encode, isBlank, Bool.or_eq_false_iff, decide_eq_false_iff_not,
    decide_eq_false_iff_not] at hidle
  refine ⟨hidle.1, hidle.2, ?_, slash_notMem_of_mem_segments hs⟩
  rintro rfl
  exact hdots rfl

/-- A directory that is made has a name that was not there. -/
theorem exists_of_makeDirectory {path : Path} (hmade : fs.makeDirectory path = .ok fs') :
    ∃ location name, isProper name = true ∧ step fs.top location name = .error .notFound ∧
      fs' = { fs with top := fs.top.set (location ++ [name]) (.directory []) } := by
  have htrimmed : ((FileSystem.stepsOf path).reverse.dropWhile
      fun n => n.isEmpty || n = dot).reverse = (FileSystem.stepsOf path).rdropWhile isIdle := rfl
  simp only [FileSystem.makeDirectory, htrimmed] at hmade
  split at hmade
  · cases hmade
  · split at hmade
    · cases hmade
    · rename_i name hlast
      split at hmade
      · cases hmade
      · split at hmade
        · cases hmade
        · split at hmade
          · cases hmade
          · rename_i hstep hdots
            obtain ⟨hne, hname⟩ := List.mem_getLast?_eq_getLast hlast
            have hidle := List.rdropWhile_last_not isIdle (FileSystem.stepsOf path) hne
            have hmem := (List.rdropWhile_prefix isIdle (FileSystem.stepsOf path)).subset
              (List.getLast_mem hne)
            rw [← hname] at hidle hmem
            exact ⟨_, name, isProper_of_mem_stepsOf hmem (Bool.eq_false_iff.mpr hidle) hdots, hstep,
              (Except.ok.inj hmade).symm⟩
        · cases hmade

theorem makeDirectory_grown (h : fs.Plain) {path : Path} (hmade : fs.makeDirectory path = .ok fs') :
    Grown touched fs fs' := by
  obtain ⟨location, name, hname, hstep, rfl⟩ := exists_of_makeDirectory hmade
  rcases hget : fs.top.get? location with _ | contents | entries | target
  · rw [set_concat_of_get?_eq_none hget]
    exact .refl h
  · rw [step, hget] at hstep
    cases hstep
  · refine grown_directory h hget hname ?_
    rw [step_of_isProper hget hname] at hstep
    split at hstep
    · assumption
    · cases hstep
    · cases hstep
  · exact absurd hget (h.links location target)

/-- Making a directory and all above it lets the file system grow. -/
theorem makeDirectories_grown (h : fs.Plain) {fuel : Nat} {path : Path}
    (hmade : FileSystem.makeDirectories fuel path fs = .ok fs') : Grown touched fs fs' := by
  induction fuel generalizing path fs fs' with
  | zero => cases hmade
  | succ fuel ih =>
      rw [FileSystem.makeDirectories] at hmade
      -- the directory is made at once, or behind the one above it, or is there
      split at hmade
      · cases hmade
        exact .refl h
      · split at hmade
        · cases hmade
          exact makeDirectory_grown h ‹_›
        · split at hmade
          · cases hmade
          · split at hmade
            · cases hmade
            · rename_i above _ between hbetween
              have hgrown := ih h hbetween
              split at hmade
              · cases hmade
                exact hgrown.trans (makeDirectory_grown hgrown.plain ‹_›)
              · split at hmade
                · cases hmade
                  exact hgrown
                · cases hmade
        · split at hmade
          · cases hmade
            exact .refl h
          · cases hmade

/-- A file that is written is in a directory, and was a file or not there. -/
theorem exists_of_writeFile (h : fs.Plain) {path : Path} {contents : List UInt8}
    (hwritten : fs.writeFile path contents = .ok fs') :
    ∃ directory entries name,
      walkToName fs.top FileSystem.linkLimit (fs.startOf path) (FileSystem.stepsOf path) =
        .ok (directory, name) ∧
      path.text ≠ "" ∧ fs.top.get? directory = some (.directory entries) ∧
      (∀ child, entries.lookup name = some child → child.isDirectory = false) ∧
      fs' = { fs with top := fs.top.set (directory ++ [name]) (.file contents) } := by
  rw [FileSystem.writeFile] at hwritten
  split at hwritten
  · cases hwritten
  · rename_i htext
    split at hwritten
    · cases hwritten
    · rename_i directory name hwalk
      obtain ⟨-, -, -, -, hdirectory⟩ := (walkToName_eq_ok_iff h.links).mp hwalk
      rw [IsDirectoryAt] at hdirectory
      rcases hget : fs.top.get? directory with _ | old | entries | target
      · rw [hget] at hdirectory
        cases hdirectory
      · rw [hget] at hdirectory
        cases hdirectory
      · split at hwritten
        · cases hwritten
        · rename_i hfile
          refine ⟨directory, entries, name, hwalk, htext, hget, ?_, (Except.ok.inj hwritten).symm⟩
          intro child hchild
          rcases child with old | inner | target
          · rfl
          · have hinner : fs.top.get? (directory ++ [name]) = some (.directory inner) := by
              rw [get?_append, hget, Option.bind_some, get?, hchild]
              rfl
            exact absurd hinner (hfile inner)
          · rfl
      · exact absurd hget (h.links directory target)

theorem writeFile_grown (h : fs.Plain) {path : Path} {contents : List UInt8}
    (hwritten : fs.writeFile path contents = .ok fs')
    (htouched : ∀ name, (FileSystem.stepsOf path).getLast? = some name → touched name) :
    Grown touched fs fs' := by
  obtain ⟨directory, entries, name, hwalk, -, hget, hold, rfl⟩ := exists_of_writeFile h hwritten
  obtain ⟨front, hsteps, ⟨hidle, hdots⟩, -⟩ := (walkToName_eq_ok_iff h.links).mp hwalk
  have hmem : name ∈ FileSystem.stepsOf path := by
    rw [hsteps]
    exact List.mem_append_right front List.mem_cons_self
  refine grown_file h hget (isProper_of_mem_stepsOf hmem hidle hdots) hold ?_ contents
  apply htouched
  rw [hsteps, List.getLast?_concat]

/-- Whether the file that a call writes, if any, has a name that is touched. -/
def Touches (touched : FileName → Prop) : WriteCall → Prop
  | .makeDirectory _ => True
  | .writeFile path _ => ∀ name, (FileSystem.stepsOf path).getLast? = some name → touched name

theorem touches_any (call : WriteCall) : Touches (fun _ => True) call := by
  rcases call with path | ⟨path, contents⟩
  · trivial
  · exact fun _ _ => trivial

/-- A call that writes a file of some names below a path touches the last of them. -/
theorem touches_writeFile (root : Path) {names : List String}
    (hnames : ∀ s ∈ names, IsName s) {last : String} (hlast : names.getLast? = some last)
    (htouched : touched (encode last)) (text : String) :
    Touches touched (.writeFile (root.join (ofNames names)) text) := by
  have hne : names ≠ [] := by
    rintro rfl
    cases hlast
  have hsteps : (FileSystem.stepsOf (root.join (ofNames names))).getLast? = some (encode last) := by
    rw [stepsOf_eq, List.getLast?_map]
    by_cases htext : root.text = ""
    · have hjoin : root.join (ofNames names) = ofNames names := by
        simp [join, htext]
      rw [hjoin, segments_ofNames hne fun s hs => (hnames s hs).2.2.2, hlast]
      rfl
    · obtain ⟨base, -, -, hsegments⟩ := segments_join htext hne hnames
      rw [hsegments, List.getLast?_append, hlast]
      rfl
  intro name hname
  rw [hsteps, Option.some.injEq] at hname
  rw [← hname]
  exact htouched

/-- Before a file is written, the directories above it are made. -/
theorem exists_of_attempt_writeFile (h : fs.Plain) {path : Path} {text : String}
    (hdone : attempt fs (.writeFile path text) = (fs', none)) :
    ∃ between, Grown touched fs between ∧ between.writeFile path (encode text) = .ok fs' := by
  simp only [attempt] at hdone
  split at hdone
  · cases hdone
  · rename_i between hprepared
    refine ⟨between, ?_, ?_⟩
    · split at hprepared
      · exact makeDirectories_grown h hprepared
      · cases hprepared
        exact .refl h
    · split at hdone
      · cases hdone
        assumption
      · cases hdone

/-- A call that goes well lets the file system grow. -/
theorem attempt_grown (h : fs.Plain) {call : WriteCall} (htouches : Touches touched call)
    (hdone : attempt fs call = (fs', none)) : Grown touched fs fs' := by
  rcases call with path | ⟨path, contents⟩
  · rw [attempt] at hdone
    split at hdone
    · cases hdone
      exact makeDirectories_grown h ‹_›
    · cases hdone
  · obtain ⟨between, hgrown, hwritten⟩ := exists_of_attempt_writeFile h hdone
    exact hgrown.trans (writeFile_grown hgrown.plain hwritten htouches)

/-- Calls that all go well let the file system grow. -/
theorem perform_grown (h : fs.Plain) {calls : List WriteCall}
    (htouches : ∀ call ∈ calls, Touches touched call)
    (hdone : (perform attempt calls fs).error = none) :
    Grown touched fs (perform attempt calls fs).state := by
  induction calls generalizing fs with
  | nil => exact .refl h
  | cons call calls ih =>
      rw [List.forall_mem_cons] at htouches
      rcases hattempt : attempt fs call with ⟨between, _ | e⟩
      · have hgrown := attempt_grown h htouches.1 hattempt
        rw [perform, hattempt] at hdone ⊢
        exact hgrown.trans (ih hgrown.plain htouches.2 hdone)
      · rw [perform, hattempt] at hdone
        cases hdone

end

end PubSweep.Files
