import PubSweep.Proofs.Files.Names

/-!
Directory trees and the files in them.

A tree is sound if its directories hold each name once, and only names that a path can spell.
`Entry.fileAt` is the view of a tree as a map from locations to contents; writing a file that is
there changes this map at one location (`fileAt_set`) and nothing else about the tree
(`outline_set`).
-/

namespace PubSweep.Files

/-- Whether a directory can hold a name. -/
def isProper (name : FileName) : Bool :=
  !name.isEmpty && name != dot && name != dotDot && !name.contains slash

theorem isProper_encode_iff {s : String} : isProper (encode s) = true ↔ Path.IsName s := by
  have hempty : encode s = [] ↔ s = "" := encode_injective.eq_iff (a := s) (b := "")
  have hdot : encode s = dot ↔ s = "." := encode_injective.eq_iff (a := s) (b := ".")
  have hdotDot : encode s = dotDot ↔ s = ".." := encode_injective.eq_iff (a := s) (b := "..")
  have hslash : slash ∈ encode s ↔ '/' ∈ s.toList := by
    simp [encode, Text.bytesOf, slash_mem_utf8EncodeChar_iff]
  simp [isProper, Path.IsName, hempty, hdot, hdotDot, hslash, and_assoc]

theorem mem_of_lookup {α β : Type} [BEq α] [LawfulBEq α] {entries : List (α × β)} {a : α} {b : β}
    (h : entries.lookup a = some b) : (a, b) ∈ entries := by
  obtain ⟨before, after, rfl, -⟩ := List.lookup_eq_some_iff.mp h
  exact List.mem_append_right before List.mem_cons_self

namespace Entry

/-- Induction on a tree: a directory has the property if all its entries have it. -/
@[elab_as_elim]
theorem induct {motive : Entry → Prop} (file : ∀ contents, motive (.file contents))
    (link : ∀ target, motive (.link target))
    (directory : ∀ entries, (∀ n ∈ entries, motive n.2) → motive (.directory entries)) :
    ∀ e, motive e
  | .file contents => file contents
  | .link target => link target
  | .directory entries => directory entries fun n _ => induct file link directory n.2
decreasing_by
  obtain ⟨name, e⟩ := n
  have hlt := List.sizeOf_lt_of_mem ‹(name, e) ∈ entries›
  simp only [Prod.mk.sizeOf_spec, Entry.directory.sizeOf_spec] at hlt ⊢
  omega

/-! ### Sound trees -/

mutual
/-- Whether all directories of a tree hold proper names, each of them once. -/
def isSound : Entry → Bool
  | directory entries => areSound entries
  | file _ | link _ => true

/-- The same for the entries of a directory. -/
def areSound : List (FileName × Entry) → Bool
  | [] => true
  | (name, e) :: rest =>
    isProper name && !(rest.map Prod.fst).contains name && e.isSound && areSound rest
end

section

variable {entries : List (FileName × Entry)} {name : FileName} {e : Entry}

theorem isProper_of_mem (h : areSound entries = true) (hmem : (name, e) ∈ entries) :
    isProper name = true := by
  induction entries with
  | nil => cases hmem
  | cons head rest ih =>
      simp only [areSound, Bool.and_eq_true] at h
      rcases List.mem_cons.mp hmem with rfl | hmem
      · exact h.1.1.1
      · exact ih h.2 hmem

theorem isSound_of_mem (h : areSound entries = true) (hmem : (name, e) ∈ entries) :
    e.isSound = true := by
  induction entries with
  | nil => cases hmem
  | cons head rest ih =>
      simp only [areSound, Bool.and_eq_true] at h
      rcases List.mem_cons.mp hmem with rfl | hmem
      · exact h.1.2
      · exact ih h.2 hmem

theorem nodup_of_areSound (h : areSound entries = true) : (entries.map Prod.fst).Nodup := by
  induction entries with
  | nil => exact List.nodup_nil
  | cons head rest ih =>
      simp only [areSound, Bool.and_eq_true, Bool.not_eq_true', List.contains_eq_mem,
        decide_eq_false_iff_not] at h
      exact List.nodup_cons.mpr ⟨h.1.1.2, ih h.2⟩

/-- In a sound directory, every entry is found by its name. -/
theorem lookup_of_mem (h : areSound entries = true) (hmem : (name, e) ∈ entries) :
    entries.lookup name = some e := by
  obtain ⟨before, after, rfl⟩ := List.append_of_mem hmem
  rw [List.lookup_eq_some_iff]
  refine ⟨before, after, rfl, ?_⟩
  intro other hother
  have hnodup := nodup_of_areSound h
  rw [List.map_append, List.map_cons, List.nodup_append] at hnodup
  rw [bne_iff_ne]
  exact Ne.symm (hnodup.2.2 _ (List.mem_map_of_mem hother) _ List.mem_cons_self)

end

/-! ### Locations -/

theorem get?_append (e : Entry) (above rest : Location) :
    e.get? (above ++ rest) = (e.get? above).bind (get? rest) := by
  induction above generalizing e with
  | nil => rfl
  | cons name above ih =>
      cases e with
      | file contents => rfl
      | link target => rfl
      | directory entries =>
          rw [List.cons_append, get?, get?]
          cases entries.lookup name with
          | none => rfl
          | some child => exact ih child

/-- What is below a location that is there lies in a directory. -/
theorem get?_cons_eq_some {e found : Entry} {name : FileName} {rest : Location}
    (h : e.get? (name :: rest) = some found) :
    ∃ entries child, e = .directory entries ∧ entries.lookup name = some child ∧
      child.get? rest = some found := by
  cases e with
  | file contents => cases h
  | link target => cases h
  | directory entries =>
      rw [get?, Option.bind_eq_some_iff] at h
      obtain ⟨child, hchild, hfound⟩ := h
      exact ⟨entries, child, rfl, hchild, hfound⟩

theorem get?_file_ne_link (contents : List UInt8) (location : Location) (target : List UInt8) :
    (file contents).get? location ≠ some (.link target) := by
  cases location <;> nofun

/-- A directory whose entries hold no links holds none. -/
theorem get?_directory_ne_link {entries : List (FileName × Entry)}
    (h : ∀ n ∈ entries, ∀ location target, n.2.get? location ≠ some (.link target))
    (location : Location) (target : List UInt8) :
    (directory entries).get? location ≠ some (.link target) := by
  intro hlink
  cases location with
  | nil => cases hlink
  | cons name rest =>
      obtain ⟨_, child, heq, hlookup, hrest⟩ := get?_cons_eq_some hlink
      cases heq
      exact h _ (mem_of_lookup hlookup) rest target hrest

/-- The contents of the file at a location. -/
def fileAt (e : Entry) (location : Location) : Option (List UInt8) :=
  match e.get? location with
  | some (.file contents) => some contents
  | _ => none

theorem fileAt_eq_some_iff {e : Entry} {location : Location} {contents : List UInt8} :
    e.fileAt location = some contents ↔ e.get? location = some (.file contents) := by
  rw [fileAt]
  split <;> simp_all

/-- What an entry is, but for the contents of a file and of a directory. -/
inductive Outline where
  | file
  | directory
  | link (target : List UInt8)

/-- The outline of an entry. -/
def outline : Entry → Outline
  | .file _ => .file
  | .directory _ => .directory
  | .link target => .link target

/-! ### Writing a file -/

theorem lookup_put (name other : FileName) (e : Entry) (entries : List (FileName × Entry)) :
    (put name e entries).lookup other =
      if other = name then some e else entries.lookup other := by
  by_cases h : other = name
  · subst h
    rw [if_pos rfl]
    induction entries with
    | nil => simp [put]
    | cons head rest ih =>
        obtain ⟨first, old⟩ := head
        rw [put]
        by_cases hfirst : first = other
        · simp [hfirst]
        · have hbeq : (other == first) = false := by simpa using Ne.symm hfirst
          rw [if_neg hfirst, List.lookup_cons, hbeq]
          exact ih
  · have hname : (other == name) = false := by simpa using h
    rw [if_neg h]
    induction entries with
    | nil => simp [put, List.lookup_cons, hname]
    | cons head rest ih =>
        obtain ⟨first, old⟩ := head
        rw [put]
        by_cases hfirst : first = name
        · simp [hfirst, List.lookup_cons, hname]
        · rw [if_neg hfirst, List.lookup_cons, List.lookup_cons, ih]

theorem set_cons {entries : List (FileName × Entry)} {name : FileName} {child : Entry}
    (h : entries.lookup name = some child) (rest : Location) (new : Entry) :
    (directory entries).set (name :: rest) new =
      directory (put name (child.set rest new) entries) := by
  cases rest with
  | nil => simp only [set]
  | cons next rest => simp only [set, h]

section

variable {e tree : Entry} {location : Location} {old : List UInt8}

/-- A tree in which a file is written holds the new contents at its location, and the old contents
of all other files. -/
theorem fileAt_set (h : e.get? location = some (.file old)) (new : List UInt8)
    (other : Location) :
    (e.set location (.file new)).fileAt other =
      if other = location then some new else e.fileAt other := by
  induction location generalizing e other with
  | nil =>
      rw [get?, Option.some.injEq] at h
      subst h
      cases other <;> rfl
  | cons name rest ih =>
      obtain ⟨entries, child, rfl, hchild, hrest⟩ := get?_cons_eq_some h
      rw [set_cons hchild]
      cases other with
      | nil => rfl
      | cons first others =>
          have hput := lookup_put name first (child.set rest (.file new)) entries
          by_cases hfirst : first = name
          · subst hfirst
            rw [if_pos rfl] at hput
            have hih := ih hrest others
            simp only [fileAt] at hih
            simp only [fileAt, get?, hput, hchild, Option.bind_some, hih, List.cons.injEq, true_and]
          · rw [if_neg hfirst] at hput
            simp only [fileAt, get?, hput, List.cons.injEq, hfirst, false_and, if_false]

/-- Writing a file leaves the outlines of all entries. -/
theorem outline_set (h : e.get? location = some (.file old)) (new : List UInt8)
    (other : Location) :
    ((e.set location (.file new)).get? other).map outline = (e.get? other).map outline := by
  induction location generalizing e other with
  | nil =>
      rw [get?, Option.some.injEq] at h
      subst h
      cases other <;> rfl
  | cons name rest ih =>
      obtain ⟨entries, child, rfl, hchild, hrest⟩ := get?_cons_eq_some h
      rw [set_cons hchild]
      cases other with
      | nil => rfl
      | cons first others =>
          rw [get?, get?, lookup_put]
          by_cases hfirst : first = name
          · subst hfirst
            rw [if_pos rfl, hchild]
            exact ih hrest others
          · rw [if_neg hfirst]

/-- Writing below a location is writing in the tree that is there. -/
theorem get?_set_append {above : Location} (habove : e.get? above = some tree)
    (h : tree.get? location = some (.file old)) (new : List UInt8) :
    (e.set (above ++ location) (.file new)).get? above =
      some (tree.set location (.file new)) := by
  induction above generalizing e with
  | nil =>
      rw [get?, Option.some.injEq] at habove
      subst habove
      rfl
  | cons name above ih =>
      obtain ⟨entries, child, rfl, hchild, hrest⟩ := get?_cons_eq_some habove
      rw [List.cons_append, set_cons hchild, get?, lookup_put, if_pos rfl]
      exact ih hrest

end

end Entry

end PubSweep.Files
