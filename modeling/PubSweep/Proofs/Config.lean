import Mathlib.Data.List.Basic
import PubSweep.Config

/-!
What the command line makes of a configuration.

Each setting follows a rule of its own: the fix is replaced, the kinds are replaced and put in their
order, and the patterns are added to (`foldl_addPattern`).  `merge_canonical` is the main statement;
it also says that merging is stable: settings that went through it once stay as they are.
-/

namespace PubSweep

/-! ### Kinds -/

section Repetitions

variable {α : Type} [DecidableEq α]

/-- What has been found already stands in front, in reverse. -/
theorem eraseRepsBy_loop (last : α) (rest found : List α) :
    List.eraseRepsBy.loop (· == ·) last rest found =
      found.reverse ++ List.eraseRepsBy.loop (· == ·) last rest [] := by
  induction rest generalizing last found with
  | nil => simp [List.eraseRepsBy.loop]
  | cons next rest ih =>
      rw [List.eraseRepsBy.loop, List.eraseRepsBy.loop]
      cases last == next with
      | true => exact ih last found
      | false => simp [ih next (last :: found), ih next [last]]

theorem eraseReps_cons_cons (a b : α) (l : List α) :
    (a :: b :: l).eraseReps =
      if a = b then (b :: l).eraseReps else a :: (b :: l).eraseReps := by
  rw [List.eraseReps, List.eraseReps, List.eraseRepsBy, List.eraseRepsBy, List.eraseRepsBy.loop]
  by_cases h : a = b
  · simp [h]
  · rw [if_neg h, beq_eq_false_iff_ne.mpr h]
    exact eraseRepsBy_loop b l [a]

theorem mem_eraseReps {a : α} {l : List α} : a ∈ l.eraseReps ↔ a ∈ l := by
  induction l with
  | nil => rfl
  | cons first rest ih =>
      cases rest with
      | nil => rfl
      | cons second rest =>
          rw [eraseReps_cons_cons]
          by_cases heq : first = second
          · rw [if_pos heq, ih, heq]
            simp
          · rw [if_neg heq, List.mem_cons, ih]
            exact List.mem_cons.symm

end Repetitions

namespace ItemKind

theorem rank_injective : Function.Injective rank := by
  intro a b h
  cases a <;> cases b <;> first | rfl | cases h

/-- Kinds that go up come with no repetition once those beside each other are gone. -/
theorem pairwise_eraseReps {kinds : List ItemKind}
    (h : kinds.Pairwise fun a b => a.rank ≤ b.rank) :
    kinds.eraseReps.Pairwise fun a b => a.rank < b.rank := by
  induction kinds with
  | nil => exact List.Pairwise.nil
  | cons first rest ih =>
      obtain ⟨hle, hrest⟩ := List.pairwise_cons.mp h
      cases rest with
      | nil => exact List.pairwise_singleton _ first
      | cons second rest =>
          rw [eraseReps_cons_cons]
          by_cases heq : first = second
          · rw [if_pos heq]
            exact ih hrest
          · rw [if_neg heq]
            refine List.pairwise_cons.mpr ⟨?_, ih hrest⟩
            intro kind hkind
            have hlt : first.rank < second.rank :=
              Nat.lt_of_le_of_ne (hle second List.mem_cons_self) (rank_injective.ne heq)
            rcases List.mem_cons.mp (mem_eraseReps.mp hkind) with rfl | hmem
            · exact hlt
            · exact Nat.lt_of_lt_of_le hlt ((List.pairwise_cons.mp hrest).1 kind hmem)

/-- To sort and to leave out repetitions keeps the kinds there are. -/
theorem mem_normalize {kinds : List ItemKind} {kind : ItemKind} :
    kind ∈ normalize kinds ↔ kind ∈ kinds := by
  rw [normalize, mem_eraseReps, List.mem_mergeSort]

/-- Normalized kinds go strictly up. -/
theorem pairwise_normalize (kinds : List ItemKind) :
    (normalize kinds).Pairwise fun a b => a.rank < b.rank := by
  apply pairwise_eraseReps
  refine (List.pairwise_mergeSort ?_ ?_ kinds).imp of_decide_eq_true
  · intro a b c hab hbc
    exact decide_eq_true (Nat.le_trans (of_decide_eq_true hab) (of_decide_eq_true hbc))
  · intro a b
    simpa using Nat.le_total a.rank b.rank

/-- Kinds that go strictly up are known by their members. -/
theorem eq_of_mem_iff {kinds others : List ItemKind}
    (hkinds : kinds.Pairwise fun a b => a.rank < b.rank)
    (hothers : others.Pairwise fun a b => a.rank < b.rank)
    (h : ∀ kind, kind ∈ kinds ↔ kind ∈ others) : kinds = others := by
  have hnodup {l : List ItemKind} (hl : l.Pairwise fun a b => a.rank < b.rank) : l.Nodup := by
    refine hl.imp ?_
    rintro a b hlt rfl
    exact Nat.lt_irrefl _ hlt
  refine List.Perm.eq_of_pairwise ?_ hkinds hothers ?_
  · intro a b _ _ hab hba
    exact absurd hab (Nat.lt_asymm hba)
  · exact (List.perm_ext_iff_of_nodup (hnodup hkinds) (hnodup hothers)).mpr h

theorem normalize_of_pairwise {kinds : List ItemKind}
    (h : kinds.Pairwise fun a b => a.rank < b.rank) : normalize kinds = kinds :=
  eq_of_mem_iff (pairwise_normalize kinds) h fun _ => mem_normalize

theorem normalize_normalize (kinds : List ItemKind) :
    normalize (normalize kinds) = normalize kinds :=
  normalize_of_pairwise (pairwise_normalize kinds)

end ItemKind

namespace MergedConfig

/-! ### Patterns -/

/-- Patterns that are added to some patterns: those of the given ones that are not there yet, each
once, in the order in which they come first. -/
structure Added (own given added : List String) : Prop where
  mem : ∀ s, s ∈ added ↔ s ∈ given ∧ s ∉ own
  once : added.Nodup
  order : added.Pairwise fun a b => given.idxOf a < given.idxOf b

theorem idxOf_cons_lt_idxOf_cons {first a b : String} {given : List String} (ha : a ≠ first)
    (hb : b ≠ first) (h : given.idxOf a < given.idxOf b) :
    (first :: given).idxOf a < (first :: given).idxOf b := by
  rw [List.idxOf_cons_ne _ ha.symm, List.idxOf_cons_ne _ hb.symm]
  exact Nat.succ_lt_succ h

/-- A pattern that is there already adds nothing. -/
theorem Added.cons_of_mem {own given added : List String} {first : String}
    (h : Added own given added) (hfirst : first ∈ own) : Added own (first :: given) added := by
  have hne : ∀ s ∈ added, s ≠ first := by
    rintro s hs rfl
    exact ((h.mem s).mp hs).2 hfirst
  refine ⟨?_, h.once, ?_⟩
  · intro s
    rw [h.mem, List.mem_cons, and_congr_left_iff]
    intro hown
    have hs : s ≠ first := fun heq => hown (heq ▸ hfirst)
    simp [hs]
  · refine h.order.imp_of_mem ?_
    intro a b ha hb
    exact idxOf_cons_lt_idxOf_cons (hne a ha) (hne b hb)

/-- A pattern that is not there comes before what is added behind it. -/
theorem Added.cons_of_notMem {own given added : List String} {first : String}
    (h : Added (own ++ [first]) given added) (hfirst : first ∉ own) :
    Added own (first :: given) (first :: added) := by
  have hne : ∀ s ∈ added, s ≠ first := by
    rintro s hs rfl
    exact ((h.mem s).mp hs).2 (by simp)
  refine ⟨?_, List.nodup_cons.mpr ⟨fun hmem => hne first hmem rfl, h.once⟩,
    List.pairwise_cons.mpr ⟨?_, ?_⟩⟩
  · intro s
    rw [List.mem_cons, List.mem_cons, h.mem, List.mem_append, List.mem_singleton, not_or]
    by_cases hs : s = first
    · simp [hs, hfirst]
    · simp [hs]
  · intro s hs
    rw [List.idxOf_cons_self, List.idxOf_cons_ne _ (hne s hs).symm]
    exact Nat.succ_pos _
  · refine h.order.imp_of_mem ?_
    intro a b ha hb
    exact idxOf_cons_lt_idxOf_cons (hne a ha) (hne b hb)

/-- Patterns stay where they are, and others come behind them. -/
theorem foldl_addPattern (own given : List String) :
    ∃ added, given.foldl addPattern own = own ++ added ∧ Added own given added := by
  induction given generalizing own with
  | nil => exact ⟨[], by simp, by simp, List.nodup_nil, List.Pairwise.nil⟩
  | cons first given ih =>
      rw [List.foldl_cons, addPattern]
      by_cases hfirst : first ∈ own
      · obtain ⟨added, heq, hadded⟩ := ih own
        exact ⟨added, by rw [if_pos (by simpa using hfirst), heq], hadded.cons_of_mem hfirst⟩
      · obtain ⟨added, heq, hadded⟩ := ih (own ++ [first])
        refine ⟨first :: added, ?_, hadded.cons_of_notMem hfirst⟩
        rw [if_neg (by simpa using hfirst), heq, List.append_assoc, List.singleton_append]

/-- Patterns that are all there add nothing. -/
theorem foldl_addPattern_of_subset {own given : List String} (h : ∀ s ∈ given, s ∈ own) :
    given.foldl addPattern own = own := by
  obtain ⟨added, heq, hadded⟩ := foldl_addPattern own given
  have hnone : added = [] := by
    rw [List.eq_nil_iff_forall_not_mem]
    intro s hs
    obtain ⟨hgiven, hown⟩ := (hadded.mem s).mp hs
    exact hown (h s hgiven)
  rw [heq, hnone, List.append_nil]

theorem mem_foldl_addPattern {own given : List String} {s : String} (h : s ∈ given) :
    s ∈ given.foldl addPattern own := by
  obtain ⟨added, heq, hadded⟩ := foldl_addPattern own given
  rw [heq, List.mem_append, hadded.mem]
  by_cases hown : s ∈ own
  · exact Or.inl hown
  · exact Or.inr ⟨h, hown⟩

/-! ### Merging -/

/-- The configuration that asks for some settings. -/
def toConfig (merged : MergedConfig) : Config where
  kinds := some merged.kinds
  fix := some merged.fix
  exclude := merged.exclude

/-- Settings stay as they are under overrides that they have taken in. -/
theorem merge_toConfig {merged : MergedConfig} {overrides : Overrides}
    (hnormal : ItemKind.normalize merged.kinds = merged.kinds)
    (hfix : ∀ fix ∈ overrides.fix, merged.fix = fix)
    (hkinds : overrides.kinds = [] ∨ ItemKind.normalize overrides.kinds = merged.kinds)
    (hexclude : ∀ s ∈ overrides.exclude, s ∈ merged.exclude) :
    merge merged.toConfig overrides = merged := by
  obtain ⟨fix, kinds, exclude⟩ := merged
  obtain ⟨otherFix, otherKinds, otherExclude⟩ := overrides
  simp only [merge, toConfig, mk.injEq]
  refine ⟨?_, ?_, foldl_addPattern_of_subset hexclude⟩
  · cases otherFix with
    | none => rfl
    | some other => exact (hfix other rfl).symm
  · cases otherKinds with
    | nil => exact hnormal
    | cons first rest => exact hkinds.resolve_left (List.cons_ne_nil first rest)

/-- What the settings of a run are.  The fix is that of the command line, else that of the
configuration, else the standard one.  The kinds go strictly up, and are those of the command line
if it has any, else those of the configuration if it has a list, be it empty, else the standard
ones.  The patterns of the configuration stay as they are, and those of the command line that are
not among them come behind.  Settings that are merged again, with the same command line or with
none, stay. -/
theorem merge_canonical (config : Config) (overrides : Overrides) :
    (merge config overrides).fix =
        (match overrides.fix, config.fix with
        | some fix, _ => fix
        | none, some fix => fix
        | none, none => .makePub) ∧
      (merge config overrides).kinds.Pairwise (fun a b => a.rank < b.rank) ∧
      (∀ kind, kind ∈ (merge config overrides).kinds ↔
        kind ∈ match overrides.kinds, config.kinds with
          | [], none => ItemKind.standard
          | [], some kinds => kinds
          | kinds, _ => kinds) ∧
      (∃ added, (merge config overrides).exclude = config.exclude ++ added ∧
        Added config.exclude overrides.exclude added) ∧
      merge (merge config overrides).toConfig overrides = merge config overrides ∧
      merge (merge config overrides).toConfig {} = merge config overrides := by
  have hnormal : ItemKind.normalize (merge config overrides).kinds =
      (merge config overrides).kinds := ItemKind.normalize_normalize _
  refine ⟨?_, ItemKind.pairwise_normalize _, ?_, foldl_addPattern _ _, ?_, ?_⟩
  · rw [merge]
    cases overrides.fix <;> cases config.fix <;> rfl
  · intro kind
    rw [merge, ItemKind.mem_normalize]
    cases overrides.kinds <;> cases config.kinds <;> rfl
  · refine merge_toConfig hnormal ?_ ?_ fun s hs => mem_foldl_addPattern hs
    · intro fix hfix
      rw [merge, Option.mem_def.mp hfix]
      rfl
    · rw [or_iff_not_imp_left]
      intro hkinds
      rw [merge, if_neg (by simpa using hkinds)]
  · exact merge_toConfig hnormal nofun (Or.inl rfl) nofun

example :
    merge ⟨some [.enum], some .makePubCrate, ["a/**"]⟩
        ⟨some .makePub, [.trait, .struct, .trait], ["b/**", "a/**", "b/**"]⟩ =
      ⟨.makePub, [.struct, .trait], ["a/**", "b/**"]⟩ := by
  cbv

end MergedConfig

end PubSweep
