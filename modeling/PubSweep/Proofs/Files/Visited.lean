import Mathlib.Data.List.Basic
import PubSweep.Files.Discovery
import PubSweep.Proofs.Files.Tree

/-!
The files that are visited below a root.

`mem_visitedFiles_iff` says which these are, and `visitedFiles_set` that writing one of them changes
its contents and nothing else about the list.
-/

namespace PubSweep.Files

open Entry

/-! ### Which files are visited -/

section

variable {above location : Location} {contents : List UInt8}

theorem mem_visitedAmong {entries : List (FileName × Entry)} {x : Location × List UInt8} :
    x ∈ visitedAmong above entries ↔ ∃ n ∈ entries,
      (n.2.isDirectory = true → isSkipped n.1 = false) ∧ x ∈ visitedBelow (above ++ [n.1]) n.2 := by
  induction entries with
  | nil => simp [visitedAmong]
  | cons head rest ih =>
      obtain ⟨name, e⟩ := head
      rw [visitedAmong, List.mem_append, ih]
      cases hdirectory : e.isDirectory <;> cases hskip : isSkipped name <;>
        simp [hdirectory, hskip]

/-- In a sound tree, the files that are visited are all those that no directory on the way leaves
out. -/
theorem mem_visitedBelow_iff {e : Entry} (h : e.isSound = true) :
    (location, contents) ∈ visitedBelow above e ↔ ∃ rest, location = above ++ rest ∧
      e.get? rest = some (.file contents) ∧ ∀ d ∈ rest.dropLast, isSkipped d = false := by
  induction e using Entry.induct generalizing above with
  | file old =>
      simp only [visitedBelow, List.mem_singleton, Prod.mk.injEq]
      constructor
      · rintro ⟨rfl, rfl⟩
        exact ⟨[], by simp [get?]⟩
      · rintro ⟨rest, rfl, hget, -⟩
        cases rest with
        | nil => simp_all [get?]
        | cons name rest => cases hget
  | link target =>
      simp only [visitedBelow, List.not_mem_nil, false_iff, not_exists]
      rintro rest ⟨-, hget, -⟩
      cases rest <;> cases hget
  | directory entries ih =>
      rw [visitedBelow, mem_visitedAmong]
      constructor
      · rintro ⟨⟨name, e⟩, hmem, hskip, hbelow⟩
        obtain ⟨rest, rfl, hget, hrest⟩ := (ih _ hmem (isSound_of_mem h hmem)).mp hbelow
        refine ⟨name :: rest, by simp, ?_, ?_⟩
        · rw [get?, lookup_of_mem h hmem]
          exact hget
        · cases rest with
          | nil => simp
          | cons next rest =>
              obtain ⟨inner, child, rfl, -⟩ := get?_cons_eq_some hget
              rw [List.dropLast_cons_cons]
              intro d hd
              rcases List.mem_cons.mp hd with rfl | hd
              · exact hskip rfl
              · exact hrest d hd
      · rintro ⟨rest, rfl, hget, hrest⟩
        cases rest with
        | nil => cases hget
        | cons name rest =>
            obtain ⟨_, child, heq, hlookup, hfile⟩ := get?_cons_eq_some hget
            cases heq
            have hmem := mem_of_lookup hlookup
            refine ⟨(name, child), hmem, ?_, ?_⟩
            · intro hdirectory
              cases rest with
              | nil =>
                  rw [get?, Option.some.injEq] at hfile
                  subst hfile
                  cases hdirectory
              | cons next rest => exact hrest name List.mem_cons_self
            · rw [ih _ hmem (isSound_of_mem h hmem)]
              refine ⟨rest, by simp, hfile, ?_⟩
              intro d hd
              cases rest with
              | nil => cases hd
              | cons next rest => exact hrest d (List.mem_cons_of_mem name hd)

/-- In a sound tree, no file is visited twice. -/
theorem nodup_visitedBelow {e : Entry} (h : e.isSound = true) (above : Location) :
    ((visitedBelow above e).map Prod.fst).Nodup := by
  induction e using Entry.induct generalizing above with
  | file old => simp [visitedBelow]
  | link target => simp [visitedBelow]
  | directory entries ih =>
      rw [visitedBelow]
      rw [isSound] at h
      induction entries with
      | nil => simp [visitedAmong]
      | cons head rest ihRest =>
          obtain ⟨name, e⟩ := head
          have hparts := h
          simp only [areSound, Bool.and_eq_true] at hparts
          rw [visitedAmong, List.map_append, List.nodup_append]
          refine ⟨?_, ihRest (fun n hn => ih n (List.mem_cons_of_mem _ hn)) hparts.2, ?_⟩
          · split
            · simp
            · exact ih _ List.mem_cons_self hparts.1.2 (above ++ [name])
          · intro a ha b hb
            obtain ⟨⟨_, x⟩, hx, rfl⟩ := List.mem_map.mp ha
            obtain ⟨⟨_, y⟩, hy, rfl⟩ := List.mem_map.mp hb
            obtain ⟨⟨other, e'⟩, hother, -, hbelow⟩ := mem_visitedAmong.mp hy
            obtain ⟨right, hright, -⟩ :=
              (mem_visitedBelow_iff (isSound_of_mem hparts.2 hother)).mp hbelow
            split at hx
            · cases hx
            · obtain ⟨left, hleft, -⟩ := (mem_visitedBelow_iff hparts.1.2).mp hx
              have hne : name ≠ other := by
                rintro rfl
                have hnodup := nodup_of_areSound h
                rw [List.map_cons, List.nodup_cons] at hnodup
                exact hnodup.1 (List.mem_map.mpr ⟨_, hother, rfl⟩)
              dsimp only at hright hleft ⊢
              rw [hright, hleft]
              simp [hne]

end

/-- All names on the way to an entry of a sound tree are proper. -/
theorem isProper_of_get? {e found : Entry} (h : e.isSound = true) {location : Location}
    (hget : e.get? location = some found) : ∀ name ∈ location, isProper name = true := by
  induction location generalizing e with
  | nil => simp
  | cons first rest ih =>
      obtain ⟨entries, child, rfl, hlookup, hrest⟩ := get?_cons_eq_some hget
      have hmem := mem_of_lookup hlookup
      intro name hname
      rcases List.mem_cons.mp hname with rfl | hname
      · exact isProper_of_mem h hmem
      · exact ih (isSound_of_mem h hmem) hrest name hname

section

variable {root : Entry} {v : Visited}

theorem mem_visitedFiles_iff (h : root.isSound = true) :
    v ∈ visitedFiles root ↔ root.fileAt (v.names.map encode) = some v.contents ∧
      ∀ d ∈ v.names.dropLast, isSkipped (encode d) = false := by
  have hvisited : v ∈ visitedFiles root ↔
      (v.names.map encode, v.contents) ∈ visitedBelow [] root := by
    rw [visitedFiles, List.mem_filterMap]
    constructor
    · rintro ⟨⟨location, contents⟩, hmem, hsome⟩
      obtain ⟨names, hnames, rfl⟩ := Option.map_eq_some_iff.mp hsome
      rw [mapM_decode?_eq_some_iff] at hnames
      rw [← hnames]
      exact hmem
    · intro hmem
      have hnames : (v.names.map encode).mapM decode? = some v.names :=
        mapM_decode?_eq_some_iff.mpr rfl
      exact ⟨_, hmem, by simp only [hnames, Option.map_some]⟩
  rw [hvisited, mem_visitedBelow_iff h, fileAt_eq_some_iff]
  simp [← List.map_dropLast]

theorem pairwise_visitedFiles (h : root.isSound = true) :
    (visitedFiles root).Pairwise fun a b => a.names ≠ b.names := by
  have hnodup := nodup_visitedBelow h []
  rw [List.Nodup, List.pairwise_map] at hnodup
  rw [visitedFiles, List.pairwise_filterMap]
  refine hnodup.imp ?_
  rintro ⟨l, _⟩ ⟨m, _⟩ hne a ha b hb heq
  obtain ⟨names, hnames, rfl⟩ := Option.map_eq_some_iff.mp ha
  obtain ⟨others, hothers, rfl⟩ := Option.map_eq_some_iff.mp hb
  rw [mapM_decode?_eq_some_iff] at hnames hothers
  exact hne (by rw [hnames, hothers, show names = others from heq])

/-- A visited file is known by its names. -/
theorem eq_of_names_eq (h : root.isSound = true) (hv : v ∈ visitedFiles root) {w : Visited}
    (hw : w ∈ visitedFiles root) (hnames : v.names = w.names) : v = w := by
  obtain ⟨names, contents⟩ := v
  obtain ⟨others, others'⟩ := w
  cases hnames
  have hcontents := ((mem_visitedFiles_iff h).mp hv).1.symm.trans ((mem_visitedFiles_iff h).mp hw).1
  exact congrArg (Visited.mk names) (Option.some.inj hcontents)

theorem isName_of_mem_visitedFiles (h : root.isSound = true) (hv : v ∈ visitedFiles root) :
    ∀ s ∈ v.names, Path.IsName s := by
  rw [mem_visitedFiles_iff h, fileAt_eq_some_iff] at hv
  intro s hs
  exact isProper_encode_iff.mp (isProper_of_get? h hv.1 _ (List.mem_map_of_mem hs))

end

/-! ### Writing a file -/

section

variable {entries : List (FileName × Entry)} {name : FileName}

theorem mem_map_fst_put {e : Entry} {other : FileName} :
    other ∈ (put name e entries).map Prod.fst ↔ other = name ∨ other ∈ entries.map Prod.fst := by
  induction entries with
  | nil => simp [put]
  | cons head rest ih =>
      obtain ⟨first, old⟩ := head
      rw [put]
      by_cases hfirst : first = name
      · simp [hfirst]
      · rw [if_neg hfirst, List.map_cons, List.mem_cons, ih, List.map_cons, List.mem_cons]
        exact or_left_comm

theorem areSound_put (hsound : areSound entries = true) (hname : isProper name = true)
    {e : Entry} (he : e.isSound = true) : areSound (put name e entries) = true := by
  induction entries with
  | nil => simp [put, areSound, hname, he]
  | cons head rest ih =>
      obtain ⟨first, old⟩ := head
      simp only [areSound, Bool.and_eq_true, Bool.not_eq_true', List.contains_eq_mem,
        decide_eq_false_iff_not] at hsound
      rw [put]
      by_cases hfirst : first = name
      · subst hfirst
        simp only [if_pos, areSound, Bool.and_eq_true, Bool.not_eq_true', List.contains_eq_mem,
          decide_eq_false_iff_not]
        exact ⟨⟨hsound.1.1, he⟩, hsound.2⟩
      · simp only [hfirst, if_false, areSound, Bool.and_eq_true, Bool.not_eq_true',
          List.contains_eq_mem, decide_eq_false_iff_not, mem_map_fst_put, false_or]
        exact ⟨hsound.1, ih hsound.2⟩

end

section

variable {e : Entry} {location : Location} {old : List UInt8}

theorem isSound_set (hsound : e.isSound = true) (h : e.get? location = some (.file old))
    (new : List UInt8) : (e.set location (.file new)).isSound = true := by
  induction location generalizing e with
  | nil => rfl
  | cons name rest ih =>
      obtain ⟨entries, child, rfl, hchild, hrest⟩ := get?_cons_eq_some h
      rw [set_cons hchild]
      have hmem := mem_of_lookup hchild
      exact areSound_put hsound (isProper_of_mem hsound hmem)
        (ih (isSound_of_mem hsound hmem) hrest)

/-- What becomes of a visited file if another one, or it itself, is written. -/
def rewriteAt (location : Location) (new : List UInt8) (x : Location × List UInt8) :
    Location × List UInt8 :=
  if x.1 = location then (x.1, new) else x

theorem map_rewriteAt_eq_self {xs : List (Location × List UInt8)} (h : ∀ x ∈ xs, x.1 ≠ location)
    (new : List UInt8) : xs.map (rewriteAt location new) = xs := by
  rw [List.map_congr_left (g := id), List.map_id]
  intro x hx
  exact if_neg (h x hx)

theorem fst_ne_of_mem_visitedBelow {above : Location} {name other : FileName} (hne : other ≠ name)
    (hsound : e.isSound = true) (rest : Location) :
    ∀ x ∈ visitedBelow (above ++ [other]) e, x.1 ≠ above ++ name :: rest := by
  rintro ⟨l, contents⟩ hx
  obtain ⟨tail, rfl, -⟩ := (mem_visitedBelow_iff hsound).mp hx
  simp [hne]

theorem isDirectory_set (h : e.get? location = some (.file old)) (new : List UInt8) :
    (e.set location (.file new)).isDirectory = e.isDirectory := by
  cases location with
  | nil =>
      rw [get?, Option.some.injEq] at h
      subst h
      rfl
  | cons name rest =>
      obtain ⟨entries, child, rfl, hchild, -⟩ := get?_cons_eq_some h
      rw [set_cons hchild]
      rfl

/-- What is visited in a directory where one entry is replaced by another one of its kind: the
files of the others are as they were. -/
theorem visitedAmong_put {entries : List (FileName × Entry)} {name : FileName}
    {child child' : Entry} {above rest : Location} {new : List UInt8}
    (hsound : areSound entries = true) (hchild : entries.lookup name = some child)
    (hkind : child'.isDirectory = child.isDirectory)
    (hbelow : visitedBelow (above ++ [name]) child' =
      (visitedBelow (above ++ [name]) child).map (rewriteAt (above ++ name :: rest) new)) :
    visitedAmong above (put name child' entries) =
      (visitedAmong above entries).map (rewriteAt (above ++ name :: rest) new) := by
  induction entries with
  | nil => cases hchild
  | cons head others ih =>
      obtain ⟨first, inner⟩ := head
      have hparts := hsound
      simp only [areSound, Bool.and_eq_true] at hparts
      rw [put]
      by_cases hfirst : first = name
      · subst hfirst
        rw [List.lookup_cons_self, Option.some.injEq] at hchild
        subst hchild
        have hothers : ∀ x ∈ visitedAmong above others, x.1 ≠ above ++ first :: rest := by
          intro x hx
          obtain ⟨⟨other, e⟩, hother, -, hx⟩ := mem_visitedAmong.mp hx
          have hne : other ≠ first := by
            rintro rfl
            have hnodup := nodup_of_areSound hsound
            rw [List.map_cons, List.nodup_cons] at hnodup
            exact hnodup.1 (List.mem_map.mpr ⟨_, hother, rfl⟩)
          exact fst_ne_of_mem_visitedBelow hne (isSound_of_mem hparts.2 hother) rest x hx
        rw [if_pos rfl, visitedAmong, visitedAmong, List.map_append,
          map_rewriteAt_eq_self hothers, hkind, hbelow]
        congr 1
        split <;> rfl
      · have hbeq : (name == first) = false := by simpa using Ne.symm hfirst
        rw [List.lookup_cons, hbeq] at hchild
        rw [if_neg hfirst, visitedAmong, visitedAmong, List.map_append, ih hparts.2 hchild]
        congr 1
        split
        · rfl
        · exact (map_rewriteAt_eq_self
            (fst_ne_of_mem_visitedBelow hfirst hparts.1.2 rest) new).symm

theorem visitedBelow_set (hsound : e.isSound = true) (h : e.get? location = some (.file old))
    (new : List UInt8) (above : Location) :
    visitedBelow above (e.set location (.file new)) =
      (visitedBelow above e).map (rewriteAt (above ++ location) new) := by
  induction location generalizing e above with
  | nil =>
      rw [get?, Option.some.injEq] at h
      subst h
      simp [Entry.set, visitedBelow, rewriteAt]
  | cons name rest ih =>
      obtain ⟨entries, child, rfl, hchild, hrest⟩ := get?_cons_eq_some h
      have hbelow := ih (isSound_of_mem hsound (mem_of_lookup hchild)) hrest (above ++ [name])
      rw [List.append_assoc, List.singleton_append] at hbelow
      rw [set_cons hchild, visitedBelow, visitedBelow]
      exact visitedAmong_put hsound hchild (isDirectory_set hrest new) hbelow

/-- Writing a file changes what is visited in one place: the file has its new contents. -/
theorem visitedFiles_set {root : Entry} (hsound : root.isSound = true) {names : List String}
    (h : root.get? (names.map encode) = some (.file old)) (new : List UInt8) :
    visitedFiles (root.set (names.map encode) (.file new)) = (visitedFiles root).map fun v =>
      if v.names = names then { v with contents := new } else v := by
  rw [visitedFiles, visitedBelow_set hsound h, List.filterMap_map, visitedFiles,
    List.map_filterMap]
  apply List.filterMap_congr
  rintro ⟨l, contents⟩ -
  cases hnames : l.mapM decode? with
  | none =>
      have hne : l ≠ names.map encode := by
        intro heq
        rw [mapM_decode?_eq_some_iff.mpr heq] at hnames
        cases hnames
      simp [rewriteAt, hne, hnames]
  | some others =>
      have hl := mapM_decode?_eq_some_iff.mp hnames
      have hiff : l = names.map encode ↔ others = names := by
        rw [hl]
        exact (encode_injective.list_map).eq_iff
      have hrewrite : rewriteAt ([] ++ names.map encode) new (l, contents) =
          (l, if others = names then new else contents) := by
        by_cases hothers : others = names
        · simp [rewriteAt, hiff.mpr hothers, hothers]
        · simp [rewriteAt, mt hiff.mp hothers, hothers]
      simp only [Function.comp_apply, hrewrite, hnames, Option.map_some]
      split <;> rfl

end

end PubSweep.Files
