import Mathlib.Tactic.Common
import PubSweep.Json.Decode

/-!
Values that JSON can hold are read back from their JSON.

A form of a type is a way to write its values and a way to read them.  Reading may be more liberal
than writing, but what it reads can be written and read again.
-/

namespace PubSweep.Json

variable {α : Type}

/-- The values of a type that have some property are read back from what is written for them, and
only values with the property are read. -/
structure IsForm (write : α → Json) (read : Json → Option α) (property : α → Prop) : Prop where
  read_write : ∀ {a}, property a → read (write a) = some a
  of_read : ∀ {j a}, read j = some a → property a

/-- The same for a member of an object that may be left out. -/
structure IsField (write : α → Option Json) (read : Option Json → Option α)
    (property : α → Prop) : Prop where
  read_write : ∀ {a}, property a → read (write a) = some a
  of_read : ∀ {field a}, read field = some a → property a

variable {write : α → Json} {read : Json → Option α} {property : α → Prop}

/-- Values with some property are read back from what is written for them, and so is everything that
is read, in whatever way it was written. -/
def RoundTrips (write : α → Json) (read : Json → Option α) (property : α → Prop) : Prop :=
  (∀ a, property a → read (write a) = some a) ∧ ∀ j a, read j = some a → read (write a) = some a

theorem IsForm.roundTrips (h : IsForm write read property) : RoundTrips write read property :=
  ⟨fun _ ha => h.read_write ha, fun _ _ hread => h.read_write (h.of_read hread)⟩

/-! ## Plain values -/

theorem isForm_string : IsForm string asString? fun _ => True where
  read_write _ := rfl
  of_read _ := trivial

theorem isForm_bool : IsForm bool asBool? fun _ => True where
  read_write _ := rfl
  of_read _ := trivial

theorem isForm_nat : IsForm nat asWord? (· < wordLimit) where
  read_write {n} h := by
    simp [nat, asWord?, h]
  of_read {j n} h := by
    unfold asWord? at h
    split at h
    · split at h
      case isTrue hrange =>
        cases h
        simp only [Bool.and_eq_true, decide_eq_true_eq] at hrange
        omega
      case isFalse => cases h
    · cases h

/-- A value with a text is written as its text. -/
theorem isForm_text {render : α → String} {parse : String → Option α}
    (hparse : ∀ a, property a → parse (render a) = some a)
    (hof : ∀ text a, parse text = some a → property a) :
    IsForm (fun a => string (render a)) (fun j => (asString? j).bind parse) property where
  read_write h := hparse _ h
  of_read h := by
    obtain ⟨text, -, htext⟩ := Option.bind_eq_some_iff.1 h
    exact hof text _ htext

/-- Named values are told apart by their names. -/
theorem isForm_named {values : List α} {name : α → String}
    (hfind : ∀ a, values.find? (name · == name a) = some a) :
    IsForm (fun a => string (name a)) (asNamed? values name) fun _ => True where
  read_write _ := hfind _
  of_read _ := trivial

theorem IsForm.list (h : IsForm write read property) :
    IsForm (fun as => array (as.map write)) (asList? read) fun as => ∀ a ∈ as, property a where
  read_write {as} has := by
    simp only [asList?]
    induction as with
    | nil => rfl
    | cons a as ih =>
        have ha := h.read_write (has a (by simp))
        have hrest := ih fun b hb => has b (by simp [hb])
        simp [ha, hrest]
  of_read {j as} hread := by
    cases j with
    | array items =>
      simp only [asList?] at hread
      induction items generalizing as with
      | nil =>
        cases hread
        simp
      | cons j items ih =>
        simp only [List.mapM_cons, Option.bind_eq_bind, Option.bind_eq_some_iff, Option.pure_def,
          Option.some.injEq] at hread
        obtain ⟨a, ha, rest, hrest, rfl⟩ := hread
        exact List.forall_mem_cons.2 ⟨h.of_read ha, ih hrest⟩
    | _ => cases hread

/-! ## Members of objects -/

theorem IsForm.required (h : IsForm write read property) :
    IsField (fun a => some (write a)) (Json.required read) property where
  read_write ha := h.read_write ha
  of_read hread := by
    obtain ⟨j, -, hj⟩ := Option.bind_eq_some_iff.1 hread
    exact h.of_read hj

/-- A value that may be absent is read back, if no value is written like an absent one. -/
theorem IsForm.optional (h : IsForm write read property) (hnull : ∀ a, write a ≠ null) :
    IsField (Option.map write) (Json.optional read) fun o => ∀ a ∈ o, property a where
  read_write {o} ho := by
    cases o with
    | none => rfl
    | some a =>
        have ha := h.read_write (ho a rfl)
        rw [Option.map_some, Json.optional.eq_def]
        split <;> simp_all
  of_read {field o} hread := by
    unfold Json.optional at hread
    split at hread
    · cases hread
      simp
    · cases hread
      simp
    · obtain ⟨a, ha, rfl⟩ := Option.map_eq_some_iff.1 hread
      simp [h.of_read ha]

theorem IsForm.defaulting (h : IsForm write read property) (default : α)
    (hdefault : property default) :
    IsField (fun a => some (write a)) (Json.defaulting read default) property where
  read_write ha := h.read_write ha
  of_read {field a} hread := by
    cases field with
    | none =>
      cases hread
      exact hdefault
    | some j => exact h.of_read hread

/-- A list that is left out where it is empty is read back. -/
theorem IsForm.skipping (h : IsForm write read property) :
    IsField (fun as => if as.isEmpty then none else some (array (as.map write)))
      (Json.defaulting (asList? read) []) fun as => ∀ a ∈ as, property a where
  read_write {as} has := by
    cases as with
    | nil => rfl
    | cons a as => exact h.list.read_write has
  of_read hread := (h.list.defaulting [] (by simp)).of_read hread

theorem lookup_optionalMember (key name : String) (o : Option α) :
    (optionalMember name write o).lookup key = if key == name then o.map write else none := by
  cases o with
  | none => simp [optionalMember]
  | some a =>
      simp only [optionalMember, List.lookup_cons]
      split <;> simp_all

/-- A record is read back if it is read from its own fields. -/
theorem isForm_record {names : List String} {fields : α → List (Option Json)}
    {body : List (Option Json) → Option α}
    (hfields : ∀ a, fields? names (write a) = some (fields a))
    (hbody : ∀ a, property a → body (fields a) = some a)
    (hof : ∀ fs a, body fs = some a → property a) :
    IsForm write (fun j => (fields? names j).bind body) property where
  read_write h := by rw [hfields, Option.bind_some, hbody _ h]
  of_read h := by
    obtain ⟨fs, -, hfs⟩ := Option.bind_eq_some_iff.1 h
    exact hof fs _ hfs

end PubSweep.Json
