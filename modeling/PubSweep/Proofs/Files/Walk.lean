import PubSweep.Files.Write
import PubSweep.Proofs.Files.Tree
import PubSweep.Proofs.Path.Parent

/-!
Where paths lead.

`Leads` says where a path ends if nobody counts the links on the way.  A walk comes to the same
place or meets too many links (`Leads.walk`).  `attempt_writeFile` uses this to say what writing a
file that is there can do: it sets the file, or is refused and changes nothing.  Where there are no
links, a walk is the path itself (`walk_eq_ok_iff`).
-/

namespace PubSweep.Files

open Entry PubSweep.Path

/-- Where steps lead from a location. -/
inductive Leads (top : Entry) : Location → List FileName → Location → Prop
  | done (location : Location) : Leads top location [] location
  | here {location next target : Location} {name : FileName} {rest : List FileName}
      (hstep : step top location name = .ok (.here next)) (hrest : Leads top next rest target) :
      Leads top location (name :: rest) target
  | link {location start target : Location} {name : FileName} {linked rest : List FileName}
      (hstep : step top location name = .ok (.link start linked))
      (hrest : Leads top start (linked ++ rest) target) : Leads top location (name :: rest) target

section

variable {top : Entry} {location target : Location} {steps : List FileName}

/-! ### Walks -/

theorem leads_of_advance (h : advance top location steps = .ok (.here target)) :
    Leads top location steps target := by
  induction steps generalizing location with
  | nil =>
      cases h
      exact .done _
  | cons name rest ih =>
      rw [advance] at h
      split at h
      · cases h
      · exact .here ‹_› (ih h)
      · cases h

/-- Up to a link, steps lead where those that are left lead from behind it. -/
theorem leads_of_advance_link {start : Location} {rest : List FileName}
    (h : advance top location steps = .ok (.link start rest)) (hrest : Leads top start rest target) :
    Leads top location steps target := by
  induction steps generalizing location with
  | nil => cases h
  | cons name others ih =>
      rw [advance] at h
      split at h
      · cases h
      · exact .here ‹_› (ih h)
      · cases h
        exact .link ‹_› hrest

theorem leads_of_walk {links : Nat} (h : walk top links location steps = .ok target) :
    Leads top location steps target := by
  induction links generalizing location steps with
  | zero =>
      rw [walk, follow] at h
      split at h
      · cases h
      · cases h
        exact leads_of_advance ‹_›
      · cases h
  | succ links ih =>
      rw [walk, follow] at h
      split at h
      · cases h
      · cases h
        exact leads_of_advance ‹_›
      · exact leads_of_advance_link ‹_› (ih h)

section

variable {name : FileName} {next start : Location} {linked rest : List FileName}

theorem walk_of_here (hstep : step top location name = .ok (.here next)) (links : Nat) :
    walk top links location (name :: rest) = walk top links next rest := by
  rw [walk, walk, follow, follow, advance, hstep]

theorem walk_of_link (hstep : step top location name = .ok (.link start linked)) (links : Nat) :
    walk top links location (name :: rest) =
      match links with
      | 0 => .error .tooManyLinks
      | links + 1 => walk top links start (linked ++ rest) := by
  rw [walk, follow, advance, hstep]
  cases links <;> rfl

theorem walkToName_of_here (hstep : step top location name = .ok (.here next)) (hrest : rest ≠ [])
    (links : Nat) :
    walkToName top links location (name :: rest) = walkToName top links next rest := by
  obtain ⟨second, others, rfl⟩ := List.exists_cons_of_ne_nil hrest
  rw [walkToName, walkToName, follow, follow, advanceToName, hstep]

theorem walkToName_of_link (hstep : step top location name = .ok (.link start linked))
    (hrest : rest ≠ []) (links : Nat) :
    walkToName top links location (name :: rest) =
      match links with
      | 0 => .error .tooManyLinks
      | links + 1 => walkToName top links start (linked ++ rest) := by
  obtain ⟨second, others, rfl⟩ := List.exists_cons_of_ne_nil hrest
  rw [walkToName, follow, advanceToName, hstep]
  cases links <;> rfl

end

/-- A walk comes to the end of its path, or meets too many links. -/
theorem Leads.walk (h : Leads top location steps target) (links : Nat) :
    walk top links location steps = .ok target ∨
      walk top links location steps = .error .tooManyLinks := by
  induction h generalizing links with
  | done location => exact Or.inl (by cases links <;> rfl)
  | here hstep _ ih =>
      rw [walk_of_here hstep]
      exact ih links
  | link hstep _ ih =>
      rw [walk_of_link hstep]
      cases links with
      | zero => exact Or.inr rfl
      | succ links => exact ih links

theorem Leads.unique {other : Location} (h : Leads top location steps target)
    (hother : Leads top location steps other) : target = other := by
  induction h with
  | done location =>
      cases hother
      rfl
  | here hstep _ ih =>
      cases hother with
      | here hstep' hrest' =>
          cases hstep.symm.trans hstep'
          exact ih hrest'
      | link hstep' _ => cases hstep.symm.trans hstep'
  | link hstep _ ih =>
      cases hother with
      | here hstep' _ => cases hstep.symm.trans hstep'
      | link hstep' hrest' =>
          cases hstep.symm.trans hstep'
          exact ih hrest'

theorem Leads.append {middle : Location} {more : List FileName}
    (h : Leads top location steps middle) (hmore : Leads top middle more target) :
    Leads top location (steps ++ more) target := by
  induction h with
  | done location => exact hmore
  | here hstep _ ih => exact .here hstep (ih hmore)
  | link hstep _ ih =>
      have hrest := ih hmore
      rw [List.append_assoc] at hrest
      exact .link hstep hrest

/-- The steps of a path can be taken in two parts. -/
theorem Leads.split {front back : List FileName} (h : Leads top location (front ++ back) target) :
    ∃ middle, Leads top location front middle ∧ Leads top middle back target := by
  generalize hsteps : front ++ back = steps at h
  induction h generalizing front with
  | done location =>
      obtain ⟨rfl, rfl⟩ := List.append_eq_nil_iff.mp hsteps
      exact ⟨location, .done location, .done location⟩
  | here hstep hrest ih =>
      cases front with
      | nil =>
          subst hsteps
          exact ⟨_, .done _, .here hstep hrest⟩
      | cons name front =>
          obtain ⟨rfl, rfl⟩ := List.cons.inj hsteps
          obtain ⟨middle, hfront, hback⟩ := ih rfl
          exact ⟨middle, .here hstep hfront, hback⟩
  | link hstep hrest ih =>
      cases front with
      | nil =>
          subst hsteps
          exact ⟨_, .done _, .link hstep hrest⟩
      | cons name front =>
          obtain ⟨rfl, rfl⟩ := List.cons.inj hsteps
          obtain ⟨middle, hfront, hback⟩ := ih (List.append_assoc _ _ _)
          exact ⟨middle, .link hstep hfront, hback⟩

/-! ### Steps that do not count -/

/-- Whether there is a directory at a location. -/
def IsDirectoryAt (top : Entry) (location : Location) : Prop :=
  (top.get? location).any Entry.isDirectory = true

/-- Whether a step stays where it is. -/
def isIdle (name : FileName) : Bool := name.isEmpty || name = dot

theorem step_of_isIdle {name : FileName} (h : IsDirectoryAt top location)
    (hidle : isIdle name = true) : step top location name = .ok (.here location) := by
  rw [isIdle] at hidle
  rw [IsDirectoryAt] at h
  rw [step]
  generalize top.get? location = found at h ⊢
  match found, h with
  | some (.directory entries), _ => exact if_pos hidle

theorem isDirectoryAt_of_step {name : FileName} {arrival : Arrival Location}
    (h : step top location name = .ok arrival) : IsDirectoryAt top location := by
  rw [step] at h
  rw [IsDirectoryAt]
  split at h
  case h_1 hget =>
    rw [hget]
    rfl
  · cases h
  · cases h

theorem Leads.idle_append {idle : List FileName} (h : Leads top location steps target)
    (hdirectory : IsDirectoryAt top location) (hidle : ∀ n ∈ idle, isIdle n = true) :
    Leads top location (idle ++ steps) target := by
  induction idle with
  | nil => exact h
  | cons n idle ih =>
      exact .here (step_of_isIdle hdirectory (hidle n List.mem_cons_self))
        (ih fun m hm => hidle m (List.mem_cons_of_mem n hm))

/-- Steps with the same steps that count come to the first of these in the same way. -/
theorem exists_of_filter_isIdle_eq {others rest : List FileName} {name : FileName}
    (hname : isIdle name = false)
    (h : others.filter (!isIdle ·) = (name :: rest).filter (!isIdle ·)) :
    ∃ idle more, others = idle ++ name :: more ∧ (∀ n ∈ idle, isIdle n = true) ∧
      more.filter (!isIdle ·) = rest.filter (!isIdle ·) := by
  rw [List.filter_cons_of_pos (by simp [hname]), List.filter_eq_cons_iff] at h
  obtain ⟨idle, more, rfl, hidle, -, hmore⟩ := h
  exact ⟨idle, more, rfl, by simpa using hidle, hmore⟩

/-- Steps that stay where they are can be put in and left out on the way to a directory. -/
theorem Leads.congr (h : Leads top location steps target) (htarget : IsDirectoryAt top target)
    {others : List FileName} (hsame : others.filter (!isIdle ·) = steps.filter (!isIdle ·)) :
    Leads top location others target := by
  induction h generalizing others with
  | done location =>
      rw [List.filter_nil, List.filter_eq_nil_iff] at hsame
      have hidle := (Leads.done location).idle_append htarget (by simpa using hsame)
      rwa [List.append_nil] at hidle
  | @here location next _ name rest hstep hrest ih =>
      have hdirectory := isDirectoryAt_of_step hstep
      cases hname : isIdle name with
      | true =>
          rw [step_of_isIdle hdirectory hname] at hstep
          cases hstep
          rw [List.filter_cons_of_neg (by simp [hname])] at hsame
          exact ih htarget hsame
      | false =>
          obtain ⟨idle, more, rfl, hidle, hmore⟩ := exists_of_filter_isIdle_eq hname hsame
          exact (Leads.here hstep (ih htarget hmore)).idle_append hdirectory hidle
  | @link location start _ name linked rest hstep hrest ih =>
      have hdirectory := isDirectoryAt_of_step hstep
      cases hname : isIdle name with
      | true =>
          rw [step_of_isIdle hdirectory hname] at hstep
          cases hstep
      | false =>
          obtain ⟨idle, more, rfl, hidle, hmore⟩ := exists_of_filter_isIdle_eq hname hsame
          have hlinked : (linked ++ more).filter (!isIdle ·) =
              (linked ++ rest).filter (!isIdle ·) := by
            rw [List.filter_append, List.filter_append, hmore]
          exact (Leads.link hstep (ih htarget hlinked)).idle_append hdirectory hidle

/-! ### Writing to a name -/

theorem special_eq_false {name : FileName} (hidle : isIdle name = false) (hdots : name ≠ dotDot) :
    (name.isEmpty || name = dot || name = dotDot) = false := by
  rw [isIdle, Bool.or_eq_false_iff] at hidle
  rw [hidle.1, hidle.2, decide_eq_false hdots]
  rfl

/-- The directory and the name at the end of a path whose last name is no link. -/
theorem Leads.walkToName {directory : Location} {front : List FileName} {name : FileName}
    (h : Leads top location front directory) (hname : isProper name = true)
    (hstep : step top directory name = .ok (.here (directory ++ [name]))) (links : Nat) :
    walkToName top links location (front ++ [name]) = .ok (directory, name) ∨
      walkToName top links location (front ++ [name]) = .error .tooManyLinks := by
  induction h generalizing links with
  | done directory =>
      left
      simp only [isProper, Bool.and_eq_true, Bool.not_eq_true', bne_iff_ne] at hname
      have hidle : isIdle name = false := by
        rw [isIdle, Bool.or_eq_false_iff]
        exact ⟨hname.1.1.1, decide_eq_false hname.1.1.2⟩
      have hdirectory := isDirectoryAt_of_step hstep
      rw [IsDirectoryAt] at hdirectory
      rw [List.nil_append, Files.walkToName, follow, advanceToName,
        special_eq_false hidle hname.1.2, hstep, hdirectory]
      rfl
  | here hfirst hrest ih =>
      rw [List.cons_append, walkToName_of_here hfirst (List.concat_ne_nil name _)]
      exact ih hstep links
  | link hfirst hrest ih =>
      rw [List.cons_append, walkToName_of_link hfirst (List.concat_ne_nil name _)]
      cases links with
      | zero => exact Or.inr rfl
      | succ links =>
          rw [← List.append_assoc]
          exact ih hstep links

end

/-! ### Directories that are there -/

section

variable {fs : FileSystem} {path : Path} {target : Location}

/-- A directory is not made where a path leads, and that is never for want of what is above it. -/
theorem makeDirectory_of_leads
    (htext : path.text ≠ "")
    (h : Leads fs.top (fs.startOf path) (FileSystem.stepsOf path) target) :
    ∃ e, fs.makeDirectory path = .error e ∧ e ≠ .notFound := by
  have hsteps : ((FileSystem.stepsOf path).reverse.dropWhile
      fun n => n.isEmpty || n = dot).reverse = (FileSystem.stepsOf path).rdropWhile isIdle := rfl
  simp only [FileSystem.makeDirectory, if_neg htext, hsteps]
  cases hlast : ((FileSystem.stepsOf path).rdropWhile isIdle).getLast? with
  | none => exact ⟨_, rfl, nofun⟩
  | some name =>
      obtain ⟨front, hfront⟩ := List.getLast?_eq_some_iff.mp hlast
      obtain ⟨idle, hidle⟩ := List.rdropWhile_prefix isIdle (FileSystem.stepsOf path)
      rw [hfront] at hidle
      rw [← hidle, List.append_assoc, List.singleton_append] at h
      obtain ⟨directory, hleads, hname⟩ := h.split
      simp only [hfront, List.dropLast_concat]
      rcases hleads.walk FileSystem.linkLimit with hwalk | hwalk
      · simp only [hwalk]
        refine ⟨.alreadyThere, ?_, nofun⟩
        cases hname with
        | here hstep _ => simp only [hstep]
        | link hstep _ => simp only [hstep]
      · simp only [hwalk]
        exact ⟨_, rfl, nofun⟩

/-- Making a directory that is there changes nothing. -/
theorem createDirectory_of_leads (htext : path.text ≠ "")
    (h : Leads fs.top (fs.startOf path) (FileSystem.stepsOf path) target) :
    fs.createDirectory path = .ok fs ∨ ∃ e, fs.createDirectory path = .error e := by
  obtain ⟨e, hmake, hne⟩ := makeDirectory_of_leads htext h
  rw [FileSystem.createDirectory, FileSystem.makeDirectories, if_neg htext, hmake]
  cases e with
  | notFound => exact absurd rfl hne
  | notDirectory | isDirectory | alreadyThere | tooManyLinks =>
      simp only
      split
      · exact Or.inl rfl
      · exact Or.inr ⟨_, rfl⟩

end

/-! ### Trees without links -/

section

variable {top e : Entry} {location target : Location}

theorem step_of_isProper {name : FileName} {entries : List (FileName × Entry)}
    (hentry : top.get? location = some (.directory entries)) (hname : isProper name = true) :
    step top location name =
      match entries.lookup name with
      | none => .error .notFound
      | some (.link target) =>
        .ok (.link (if target.head? = some slash then [] else location) (pieces target))
      | some _ => .ok (.here (location ++ [name])) := by
  simp only [isProper, Bool.and_eq_true, Bool.not_eq_true', bne_iff_ne] at hname
  obtain ⟨⟨⟨hempty, hdot⟩, hdots⟩, -⟩ := hname
  have hidle : ¬(name.isEmpty || decide (name = dot)) = true := by simp [hempty, hdot]
  rw [step, hentry]
  exact (if_neg hidle).trans (if_neg hdots)

/-- One step into a tree without links. -/
theorem step_into {name : FileName} {child : Entry} (hentry : top.get? location = some e)
    (hlinks : ∀ l t, e.get? l ≠ some (.link t)) (hname : isProper name = true)
    (hchild : e.get? [name] = some child) :
    step top location name = .ok (.here (location ++ [name])) ∧
      top.get? (location ++ [name]) = some child ∧ ∀ l t, child.get? l ≠ some (.link t) := by
  obtain ⟨entries, found, rfl, hlookup, hfound⟩ := get?_cons_eq_some hchild
  cases Option.some.inj hfound
  refine ⟨?_, ?_, ?_⟩
  · rw [step_of_isProper hentry hname, hlookup]
    cases child with
    | link t => exact absurd hchild (hlinks [name] t)
    | file contents | directory inner => rfl
  · rw [get?_append, hentry, Option.bind_some, hchild]
  · intro l t hl
    apply hlinks (name :: l) t
    rw [get?, hlookup, Option.bind_some, hl]

/-- Below a tree without links, names lead to where they say. -/
theorem leads_of_get? {names : List FileName} {found : Entry} (hentry : top.get? location = some e)
    (hlinks : ∀ l t, e.get? l ≠ some (.link t)) (hproper : ∀ n ∈ names, isProper n = true)
    (hfound : e.get? names = some found) : Leads top location names (location ++ names) := by
  induction names generalizing location e with
  | nil =>
      rw [List.append_nil]
      exact .done location
  | cons name rest ih =>
      rw [← List.singleton_append, get?_append, Option.bind_eq_some_iff] at hfound
      obtain ⟨child, hchild, hrest⟩ := hfound
      obtain ⟨hstep, hentry, hlinks⟩ :=
        step_into hentry hlinks (hproper name List.mem_cons_self) hchild
      have hleads := ih hentry hlinks (fun n hn => hproper n (List.mem_cons_of_mem name hn)) hrest
      rw [List.append_assoc] at hleads
      exact .here hstep hleads

/-- A step by a proper name that comes to something comes to an entry of that name. -/
theorem exists_child_of_step {name : FileName} {arrival : Arrival Location}
    (hentry : top.get? location = some e) (hname : isProper name = true)
    (h : step top location name = .ok arrival) : ∃ child, e.get? [name] = some child := by
  have hdirectory := isDirectoryAt_of_step h
  rw [IsDirectoryAt, hentry] at hdirectory
  match e, hdirectory with
  | .directory entries, _ =>
    rw [step_of_isProper hentry hname] at h
    cases hlookup : entries.lookup name with
    | none =>
        rw [hlookup] at h
        cases h
    | some child =>
        refine ⟨child, ?_⟩
        rw [get?, hlookup]
        rfl

/-- Below a tree without links, names lead nowhere else. -/
theorem eq_of_leads {names : List FileName} (hentry : top.get? location = some e)
    (hlinks : ∀ l t, e.get? l ≠ some (.link t)) (hproper : ∀ n ∈ names, isProper n = true)
    (h : Leads top location names target) : target = location ++ names := by
  induction names generalizing location e with
  | nil =>
      cases h
      rw [List.append_nil]
  | cons name rest ih =>
      have hname := hproper name List.mem_cons_self
      cases h with
      | here hstep hrest =>
          obtain ⟨child, hchild⟩ := exists_child_of_step hentry hname hstep
          obtain ⟨hstep', hentry, hlinks⟩ := step_into hentry hlinks hname hchild
          cases hstep.symm.trans hstep'
          rw [ih hentry hlinks (fun n hn => hproper n (List.mem_cons_of_mem name hn)) hrest,
            List.append_assoc, List.singleton_append]
      | link hstep _ =>
          obtain ⟨child, hchild⟩ := exists_child_of_step hentry hname hstep
          cases hstep.symm.trans (step_into hentry hlinks hname hchild).1

end

/-! ### Walks where there are no links -/

section

variable {top : Entry} (hlinks : ∀ l t, top.get? l ≠ some (.link t)) {location target : Location}
  {steps : List FileName} {name : FileName}

include hlinks

theorem step_ne_link (start : Location) (linked : List FileName) :
    step top location name ≠ .ok (.link start linked) := by
  intro hstep
  rw [step] at hstep
  split at hstep
  · rename_i entries hget
    split at hstep
    · cases hstep
    · split at hstep
      · cases hstep
      · split at hstep
        · cases hstep
        · rename_i t hlookup
          apply hlinks (location ++ [name]) t
          rw [get?_append, hget, Option.bind_some, get?, hlookup]
          rfl
        · cases hstep
  · cases hstep
  · cases hstep

/-- Without links, a walk goes where its path leads. -/
theorem walk_eq_ok_iff {links : Nat} :
    walk top links location steps = .ok target ↔ Leads top location steps target := by
  constructor
  · exact leads_of_walk
  · intro hleads
    induction hleads with
    | done location => cases links <;> rfl
    | here hstep _ ih => exact (walk_of_here hstep links).trans ih
    | link hstep _ => exact absurd hstep (step_ne_link hlinks _ _)

omit hlinks in
/-- All that can be wrong with a step out of a directory is that nothing is there. -/
theorem eq_notFound_of_step (hdirectory : IsDirectoryAt top location) {e : FileError}
    (hstep : step top location name = .error e) : e = .notFound := by
  rw [IsDirectoryAt] at hdirectory
  rw [step] at hstep
  split at hstep
  · split at hstep
    · cases hstep
    · split at hstep
      · cases hstep
      · split at hstep <;> cases hstep
        rfl
  · rename_i hother hget
    rw [hget] at hdirectory
    rename_i found
    rcases found with contents | entries | t
    · cases hdirectory
    · exact absurd rfl (hother entries)
    · cases hdirectory
  · cases hstep
    rfl

/-- The last step to a name that need not be there must lead out of a directory. -/
theorem advanceToName_singleton {arrival : Arrival (Location × FileName)} :
    advanceToName top location [name] = .ok arrival ↔
      (isIdle name = false ∧ name ≠ dotDot) ∧ IsDirectoryAt top location ∧
        arrival = .here (location, name) := by
  rw [advanceToName]
  by_cases hplain : isIdle name = false ∧ name ≠ dotDot
  · have harrive : ((if (top.get? location).any Entry.isDirectory = true then
          .ok (.here (location, name)) else .error .notFound :
            Except FileError (Arrival (Location × FileName))) = .ok arrival) ↔
          IsDirectoryAt top location ∧ arrival = .here (location, name) := by
      rw [IsDirectoryAt]
      by_cases hdirectory : (top.get? location).any Entry.isDirectory = true
      · rw [if_pos hdirectory, and_iff_right hdirectory, Except.ok.injEq, eq_comm]
      · rw [if_neg hdirectory]
        simp [hdirectory]
    rw [special_eq_false hplain.1 hplain.2, if_neg Bool.false_ne_true, and_iff_right hplain]
    split
    · exact absurd ‹_› (step_ne_link hlinks _ _)
    · exact harrive
    · exact harrive
    · rename_i e hother hstep
      simp only [reduceCtorEq, false_iff]
      rintro ⟨hdirectory, -⟩
      exact hother (eq_notFound_of_step hdirectory hstep)
  · have hspecial : (name.isEmpty || name = dot || name = dotDot) = true := by
      rw [not_and_not_right] at hplain
      cases hidle : isIdle name with
      | true => rw [← isIdle, hidle, Bool.true_or]
      | false => rw [hplain hidle, decide_eq_true rfl, Bool.or_true]
    rw [if_pos hspecial]
    exact ⟨nofun, fun h => absurd h.1 hplain⟩

/-- Without links, steps to a name that need not be there come to the last one, in the directory to
which those before it lead. -/
theorem advanceToName_eq_ok_iff {arrival : Arrival (Location × FileName)} :
    advanceToName top location steps = .ok arrival ↔ ∃ front name directory,
      steps = front ++ [name] ∧ (isIdle name = false ∧ name ≠ dotDot) ∧
      Leads top location front directory ∧ IsDirectoryAt top directory ∧
      arrival = .here (directory, name) := by
  constructor
  · intro h
    induction steps generalizing location with
    | nil => cases h
    | cons first rest ih =>
        rcases rest with _ | ⟨second, rest⟩
        · obtain ⟨hplain, hdirectory, harrival⟩ := (advanceToName_singleton hlinks).mp h
          exact ⟨[], first, location, rfl, hplain, .done _, hdirectory, harrival⟩
        · rw [advanceToName] at h
          split at h
          · cases h
          · obtain ⟨front, name, directory, hsteps, hplain, hleads, hrest⟩ := ih h
            exact ⟨first :: front, name, directory, congrArg _ hsteps, hplain,
              .here ‹_› hleads, hrest⟩
          · exact absurd ‹_› (step_ne_link hlinks _ _)
  · rintro ⟨front, name, directory, rfl, hplain, hleads, hdirectory, rfl⟩
    induction hleads with
    | done location => exact (advanceToName_singleton hlinks).mpr ⟨hplain, hdirectory, rfl⟩
    | @here location next _ first rest hstep _ ih =>
        obtain ⟨second, others, hothers⟩ := List.exists_cons_of_ne_nil (List.concat_ne_nil name rest)
        rw [hothers] at ih
        rw [List.cons_append, hothers, advanceToName, hstep]
        exact ih hdirectory
    | link hstep _ => exact absurd hstep (step_ne_link hlinks _ _)

/-- Without links, a path that need not be there leads to its last name, in the directory to which
the steps before it lead. -/
theorem walkToName_eq_ok_iff {links : Nat} :
    walkToName top links location steps = .ok (target, name) ↔ ∃ front, steps = front ++ [name] ∧
      (isIdle name = false ∧ name ≠ dotDot) ∧
      Leads top location front target ∧ IsDirectoryAt top target := by
  constructor
  · intro h
    rw [walkToName, follow.eq_def] at h
    split at h
    · cases h
    · cases h
      obtain ⟨front, _, _, hsteps, hplain, hleads, hdirectory, ⟨⟩⟩ :=
        (advanceToName_eq_ok_iff hlinks).mp ‹_›
      exact ⟨front, hsteps, hplain, hleads, hdirectory⟩
    · obtain ⟨_, _, _, -, -, -, -, ⟨⟩⟩ := (advanceToName_eq_ok_iff hlinks).mp ‹_›
  · rintro ⟨front, hsteps, hplain, hleads, hdirectory⟩
    rw [walkToName, follow.eq_def, (advanceToName_eq_ok_iff hlinks).mpr
      ⟨front, name, target, hsteps, hplain, hleads, hdirectory, rfl⟩]

end

end PubSweep.Files
