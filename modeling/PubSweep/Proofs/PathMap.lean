import PubSweep.PathMap
import PubSweep.Proofs.Path.Order

/-!
Maps by path.

Values are put in at their places, so the paths of a map go strictly up (`ordered_ofList`), and what
is found at a path is the one value that was put there (`Ordered.get?_eq_some_iff`).
-/

namespace PubSweep.PathMap

open Std

variable {α : Type}

/-- A map whose paths go strictly up. -/
def Ordered (m : PathMap α) : Prop :=
  m.entries.Pairwise fun e e' => e.1.compare e'.1 = .lt

instance (m : PathMap α) : Decidable m.Ordered :=
  inferInstanceAs (Decidable (List.Pairwise _ _))

/-- What is behind a path stays behind it where a value is put in. -/
theorem forall_lt_insertIn {p path : Path} {value : α} {entries : List (Path × α)}
    (hpath : p.compare path = .lt) (h : ∀ e ∈ entries, p.compare e.1 = .lt) :
    ∀ e ∈ insertIn path value entries, p.compare e.1 = .lt := by
  induction entries with
  | nil => exact List.forall_mem_singleton.mpr hpath
  | cons e entries ih =>
      obtain ⟨hfirst, hrest⟩ := List.forall_mem_cons.mp h
      rw [insertIn]
      split
      · exact List.forall_mem_cons.mpr ⟨hpath, h⟩
      · exact List.forall_mem_cons.mpr ⟨hfirst, hrest⟩
      · exact List.forall_mem_cons.mpr ⟨hfirst, ih hrest⟩

theorem pairwise_insertIn (path : Path) (value : α) {entries : List (Path × α)}
    (h : entries.Pairwise fun e e' => e.1.compare e'.1 = .lt) :
    (insertIn path value entries).Pairwise fun e e' => e.1.compare e'.1 = .lt := by
  induction h with
  | nil => exact List.pairwise_singleton _ _
  | @cons e entries hfirst hrest ih =>
      rw [insertIn]
      split
      case h_1 hlt =>
        refine .cons (List.forall_mem_cons.mpr ⟨hlt, ?_⟩) (.cons hfirst hrest)
        intro e' hmem
        exact TransCmp.lt_trans hlt (hfirst e' hmem)
      case h_2 => exact .cons hfirst hrest
      case h_3 hgt => exact .cons (forall_lt_insertIn (OrientedCmp.lt_of_gt hgt) hfirst) ih

theorem Ordered.insert {m : PathMap α} (h : m.Ordered) (path : Path) (value : α) :
    (m.insert path value).Ordered :=
  pairwise_insertIn path value h

theorem ordered_ofList (entries : List (Path × α)) : (ofList entries).Ordered := by
  rw [ofList]
  apply List.foldlRecOn (motive := Ordered)
  · exact .nil
  · intro m hm e _
    exact hm.insert e.1 e.2

/-- A value whose path is not there yet is put in beside the others. -/
theorem insertIn_perm (path : Path) (value : α) {entries : List (Path × α)}
    (h : ∀ e ∈ entries, path.components ≠ e.1.components) :
    (insertIn path value entries).Perm ((path, value) :: entries) := by
  induction entries with
  | nil => exact .refl _
  | cons e entries ih =>
      obtain ⟨hfirst, hrest⟩ := List.forall_mem_cons.mp h
      rw [insertIn]
      split
      case h_1 => exact .refl _
      case h_2 heq => exact absurd (Path.compare_eq_eq_iff.mp heq) hfirst
      case h_3 => exact ((ih hrest).cons e).trans (.swap _ _ _)

theorem foldl_insert_perm {entries : List (Path × α)} {m : PathMap α}
    (h : (m.entries ++ entries).Pairwise fun e e' => e.1.components ≠ e'.1.components) :
    (entries.foldl (fun m (p, v) => m.insert p v) m).entries.Perm (m.entries ++ entries) := by
  induction entries generalizing m with
  | nil => simp
  | cons e entries ih =>
      have hcross := (List.pairwise_append.mp h).2.2
      have hinsert : (m.insert e.1 e.2).entries.Perm (e :: m.entries) :=
        insertIn_perm e.1 e.2 fun e' he' => Ne.symm (hcross e' he' e List.mem_cons_self)
      have hperm : ((m.insert e.1 e.2).entries ++ entries).Perm (m.entries ++ e :: entries) :=
        (hinsert.append_right entries).trans List.perm_middle.symm
      exact (ih ((hperm.pairwise_iff Ne.symm).mpr h)).trans hperm

/-- A map of values at different paths holds these values. -/
theorem entries_ofList_perm {entries : List (Path × α)}
    (h : entries.Pairwise fun e e' => e.1.components ≠ e'.1.components) :
    (ofList entries).entries.Perm entries :=
  foldl_insert_perm (m := {}) h

theorem isSome_get? (m : PathMap α) (path : Path) :
    (m.get? path).isSome = (m.entries.map (·.1)).any (path.compare · == .eq) := by
  rw [get?, Option.isSome_map, List.isSome_find?, List.any_map]
  rfl

/-- Paths with the same components find the same. -/
theorem get?_congr (m : PathMap α) {p q : Path} (h : p.compare q = .eq) :
    m.get? p = m.get? q := by
  have hcompare : ∀ e : Path × α, p.compare e.1 = q.compare e.1 :=
    fun e => TransCmp.congr_left h
  rw [get?, get?]
  simp only [hcompare]

/-- A value is found by all paths with the components of its own. -/
theorem Ordered.get?_eq_some_iff {m : PathMap α} (h : m.Ordered) {path : Path} {value : α} :
    m.get? path = some value ↔ ∃ p, (p, value) ∈ m.entries ∧ path.compare p = .eq := by
  have hfound : ∀ {value}, m.get? path = some value →
      ∃ p, (p, value) ∈ m.entries ∧ path.compare p = .eq := by
    intro value hget
    obtain ⟨e, hfind, rfl⟩ := Option.map_eq_some_iff.mp hget
    have hsame := List.find?_some hfind
    exact ⟨e.1, List.mem_of_find?_eq_some hfind, beq_iff_eq.mp hsame⟩
  refine ⟨hfound, ?_⟩
  rintro ⟨p, hmem, hp⟩
  have hsome : (m.get? path).isSome = true := by
    rw [isSome_get?, List.any_eq_true]
    exact ⟨p, List.mem_map_of_mem hmem, beq_iff_eq.mpr hp⟩
  obtain ⟨value', hget⟩ := Option.isSome_iff_exists.mp hsome
  obtain ⟨p', hmem', hp'⟩ := hfound hget
  obtain ⟨i, hi⟩ := List.mem_iff_getElem?.mp hmem
  obtain ⟨i', hi'⟩ := List.mem_iff_getElem?.mp hmem'
  have hcomponents : p.components = p'.components :=
    (Path.compare_eq_eq_iff.mp hp).symm.trans (Path.compare_eq_eq_iff.mp hp')
  rw [Path.index_unique h hi hi' hcomponents, hi', Option.some.injEq, Prod.mk.injEq] at hi
  rw [hget, hi.2]

end PubSweep.PathMap
