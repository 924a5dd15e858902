import PubSweep.Parsing.Reduction
import PubSweep.Proofs.Parsing.Walk

/-!
Reductions.

A reduction puts nodes over what it takes off a version, and so all versions that come of it are at
the place of that version (`Stack.reduce_fresh`).  The same holds of all reductions that a token
allows (`Stack.reduceAll_above`).
-/

namespace PubSweep.Parsing

open Grammar Subtree

namespace Stack

/-! ### The node of a reduction -/

section

variable (table : Table) (source : Source)

/-- The best node is one over what was taken off along one of the paths. -/
theorem bestNode_eq (r : Reduction) (position : Nat) (first : List Subtree)
    (others : List (List Subtree)) :
    ∃ trees ∈ first :: others, bestNode table source r position first others =
      (build table source r position (splitExtras trees).1, (splitExtras trees).2) := by
  have hbest (best : Subtree × List Subtree) (all : List (List Subtree))
      (h : ∃ trees ∈ all, best =
        (build table source r position (splitExtras trees).1, (splitExtras trees).2)) :
      ∃ trees ∈ all ++ others, others.foldl
        (fun (best : Subtree × List Subtree) trees =>
          let candidate := build table source r position (splitExtras trees).1
          if isWorse table best.1 candidate then (candidate, (splitExtras trees).2) else best) best =
        (build table source r position (splitExtras trees).1, (splitExtras trees).2) := by
    induction others generalizing best all with
    | nil => simpa using h
    | cons trees others ih =>
        rw [List.foldl_cons, List.append_cons]
        apply ih
        by_cases hworse : isWorse table best.1
          (build table source r position (splitExtras trees).1) = true
        · exact ⟨trees, by simp, if_pos hworse⟩
        · obtain ⟨old, hold, heq⟩ := h
          exact ⟨old, List.mem_append_left _ hold, (if_neg hworse).trans heq⟩
  exact hbest _ [first] ⟨first, List.mem_cons_self, rfl⟩

end

/-! ### Slices by version -/

theorem groupSlices_cons (x : Slice) (slices : List Slice) :
    groupSlices (x :: slices) =
      match groupSlices slices with
      | (v, trees) :: rest =>
        if v = x.version then (v, x.trees :: trees) :: rest
        else (x.version, [x.trees]) :: (v, trees) :: rest
      | [] => [(x.version, [x.trees])] := by
  rw [groupSlices, List.foldr_cons, ← groupSlices]
  rcases groupSlices slices with _ | ⟨⟨v, trees⟩, rest⟩ <;> rfl

/-- Slices that come in the order of their versions, grouped. -/
structure Grouped (slices : List Slice) (groups : List (Nat × List (List Subtree))) : Prop where
  increasing : (groups.map Prod.fst).Pairwise (· < ·)
  mem_iff : ∀ v, v ∈ groups.map Prod.fst ↔ ∃ x ∈ slices, x.version = v
  paths : ∀ g ∈ groups, g.2 ≠ [] ∧ ∀ trees ∈ g.2, ⟨g.1, trees⟩ ∈ slices

theorem grouped_groupSlices {slices : List Slice}
    (hsorted : slices.Pairwise fun x y => x.version ≤ y.version) :
    Grouped slices (groupSlices slices) := by
  induction slices with
  | nil => exact ⟨.nil, by simp [groupSlices], nofun⟩
  | cons x slices ih =>
      obtain ⟨hx, hrest⟩ := List.pairwise_cons.mp hsorted
      have h := ih hrest
      rw [groupSlices_cons]
      rcases hgroups : groupSlices slices with _ | ⟨⟨v, trees⟩, rest⟩
      · rw [hgroups] at h
        have hnone : ∀ y ∈ slices, False := fun y hy => by
          simpa using (h.mem_iff y.version).mpr ⟨y, hy, rfl⟩
        refine ⟨List.pairwise_singleton _ _, ?_, ?_⟩
        · intro v
          constructor
          · intro hv
            exact ⟨x, List.mem_cons_self, (List.mem_singleton.mp hv).symm⟩
          · rintro ⟨y, hy, rfl⟩
            rcases List.mem_cons.mp hy with rfl | hy
            · exact List.mem_singleton.mpr rfl
            · exact (hnone y hy).elim
        · intro g hg
          cases List.mem_singleton.mp hg
          exact ⟨nofun, by simp⟩
      · rw [hgroups] at h
        dsimp only
        by_cases hv : v = x.version
        · subst hv
          rw [if_pos rfl]
          refine ⟨h.increasing, ?_, ?_⟩
          · intro u
            refine (h.mem_iff u).trans ?_
            constructor
            · rintro ⟨y, hy, hyu⟩
              exact ⟨y, List.mem_cons_of_mem x hy, hyu⟩
            · rintro ⟨y, hy, rfl⟩
              rcases List.mem_cons.mp hy with rfl | hy
              · exact (h.mem_iff _).mp List.mem_cons_self
              · exact ⟨y, hy, rfl⟩
          · intro g hg
            rcases List.mem_cons.mp hg with rfl | hg
            · refine ⟨nofun, ?_⟩
              intro path hpath
              rcases List.mem_cons.mp hpath with rfl | hpath
              · exact List.mem_cons_self
              · exact List.mem_cons_of_mem x ((h.paths _ List.mem_cons_self).2 path hpath)
            · obtain ⟨hne, hpaths⟩ := h.paths g (List.mem_cons_of_mem _ hg)
              exact ⟨hne, fun path hpath => List.mem_cons_of_mem x (hpaths path hpath)⟩
        · rw [if_neg hv]
          have hlt : x.version < v := by
            obtain ⟨y, hy, rfl⟩ := (h.mem_iff v).mp List.mem_cons_self
            exact Nat.lt_of_le_of_ne (hx y hy) (Ne.symm hv)
          refine ⟨?_, ?_, ?_⟩
          · refine List.pairwise_cons.mpr ⟨?_, h.increasing⟩
            intro u hu
            rcases List.mem_cons.mp hu with rfl | hu
            · exact hlt
            · exact Nat.lt_trans hlt ((List.pairwise_cons.mp h.increasing).1 u hu)
          · intro u
            rw [List.map_cons, List.mem_cons, h.mem_iff]
            constructor
            · rintro (rfl | ⟨y, hy, rfl⟩)
              · exact ⟨x, List.mem_cons_self, rfl⟩
              · exact ⟨y, List.mem_cons_of_mem x hy, rfl⟩
            · rintro ⟨y, hy, rfl⟩
              rcases List.mem_cons.mp hy with rfl | hy
              · exact Or.inl rfl
              · exact Or.inr ⟨y, hy, rfl⟩
          · intro g hg
            rcases List.mem_cons.mp hg with rfl | hg
            · exact ⟨nofun, by simp⟩
            · obtain ⟨hne, hpaths⟩ := h.paths g hg
              exact ⟨hne, fun path hpath => List.mem_cons_of_mem x (hpaths path hpath)⟩

/-! ### Reducing new versions -/

/-- The versions from `first` on, while they are reduced one after the other: those below `w` have
come to the place `a`, and the others wait with what was taken off them.  `removed` versions are no
longer there. -/
structure Reducing (limit first a : Nat) (before : Stack) (w removed : Nat)
    (groups : List (Nat × List (List Subtree))) (s : Stack) : Prop where
  sound : s.Sound limit
  keeps : before.Keeps (· < first) s
  le : first ≤ w
  versions : s.versions = w + groups.length
  reduced : ∀ i, first ≤ i → i < w → s.At i a
  numbers : groups.map Prod.fst = List.range' (w + removed) groups.length
  running : ∀ g ∈ groups, ∀ t, (s.head (g.1 - removed)).status ≠ .paused t
  paths : ∀ g ∈ groups, g.2 ≠ [] ∧
    ∀ trees ∈ g.2, Spans s.nodes (s.head (g.1 - removed)).node trees a

section

variable {limit first a w removed : Nat} {before s s' : Stack} {g : Nat × List (List Subtree)}
  {groups : List (Nat × List (List Subtree))}

theorem Reducing.number (h : Reducing limit first a before w removed (g :: groups) s) :
    g.1 - removed = w := by
  have hnumbers := h.numbers
  rw [List.map_cons, List.length_cons, List.range'_succ, List.cons.injEq] at hnumbers
  omega

theorem Reducing.le_of_mem (h : Reducing limit first a before w removed (g :: groups) s)
    {x : Nat × List (List Subtree)} (hx : x ∈ groups) :
    w + removed < x.1 ∧ x.1 < w + removed + (g :: groups).length := by
  have hnumbers := h.numbers
  rw [List.map_cons, List.length_cons, List.range'_succ, List.cons.injEq] at hnumbers
  have hmem : x.1 ∈ groups.map Prod.fst := List.mem_map_of_mem hx
  rw [hnumbers.2, List.mem_range'_1] at hmem
  rw [List.length_cons]
  omega

theorem Reducing.at_first (h : Reducing limit first a before w removed (g :: groups) s) :
    s.At w (s.position w) := by
  refine ⟨?_, rfl, ?_⟩
  · rw [h.versions, List.length_cons]
    omega
  · exact h.number ▸ h.running g List.mem_cons_self

/-- A version that has been reduced. -/
theorem Reducing.keep (h : Reducing limit first a before w removed (g :: groups) s)
    (hs' : Advanced limit w a s s') : Reducing limit first a before (w + 1) removed groups s' := by
  have hbelow {i : Nat} (hi : i < w) : i ≠ w := Nat.ne_of_lt hi
  have hversions := h.versions
  rw [List.length_cons] at hversions
  have hsame {x : Nat × List (List Subtree)} (hx : x ∈ groups) :
      (s'.head (x.1 - removed)).Same (s.head (x.1 - removed)) := by
    have hle := h.le_of_mem hx
    rw [List.length_cons] at hle
    exact (hs'.keeps.heads _ (by omega) (by omega)).2
  refine ⟨hs'.sound, ?_, Nat.le_succ_of_le h.le, ?_, ?_, ?_, ?_, ?_⟩
  · refine h.keeps.trans (hs'.keeps.mono ?_)
    exact fun i hi => hbelow (Nat.lt_of_lt_of_le hi h.le)
  · rw [hs'.versions]
    omega
  · intro i hle hlt
    rcases Nat.lt_succ_iff_lt_or_eq.mp hlt with hlt | rfl
    · exact (h.reduced i hle hlt).keep h.sound hs'.keeps (hbelow hlt)
    · exact hs'.here
  · have hnumbers := h.numbers
    rw [List.map_cons, List.length_cons, List.range'_succ, List.cons.injEq] at hnumbers
    rw [hnumbers.2]
    congr 1
    omega
  · intro x hx
    rw [(hsame hx).status]
    exact h.running x (List.mem_cons_of_mem g hx)
  · intro x hx
    obtain ⟨hne, hpaths⟩ := h.paths x (List.mem_cons_of_mem g hx)
    refine ⟨hne, ?_⟩
    intro trees htrees
    rw [(hsame hx).node]
    exact (hpaths trees htrees).extend hs'.keeps.nodes

/-- A version that is removed, or that has gone on and is merged into another one. -/
theorem Reducing.drop {stop : Nat} {s₁ : Stack}
    (h : Reducing limit first a before w removed (g :: groups) s) (hs₁ : Advanced limit w stop s s₁)
    (hsound : s'.Sound limit) (hversions : s'.versions = (s₁.remove w).versions)
    (hkeeps : (s₁.remove w).Keeps (fun _ => True) s') :
    Reducing limit first a before w (removed + 1) groups s' := by
  have hold := h.versions
  have hlt := hs₁.here.version
  rw [List.length_cons] at hold
  rw [versions_remove, if_pos hlt, hs₁.versions] at hversions
  have hbelow : s.Keeps (· < w) s' :=
    (hs₁.keeps.mono fun _ => Nat.ne_of_lt).trans
      ((keeps_remove s₁ w).trans (hkeeps.mono fun _ _ => trivial))
  have hsame {x : Nat × List (List Subtree)} (hx : x ∈ groups) :
      (s'.head (x.1 - (removed + 1))).Same (s.head (x.1 - removed)) := by
    have hle := h.le_of_mem hx
    rw [List.length_cons] at hle
    have hi : x.1 - (removed + 1) < (s₁.remove w).versions := by
      rw [versions_remove, if_pos hlt, hs₁.versions]
      omega
    have hshift := (hkeeps.heads _ trivial hi).2
    have heq : x.1 - (removed + 1) + 1 = x.1 - removed := by omega
    rw [head_remove, if_neg (by omega), heq] at hshift
    obtain ⟨-, hnode, hstatus⟩ := hs₁.keeps.heads (x.1 - removed) (by omega) (by omega)
    exact ⟨hshift.node.trans hnode, hshift.status.trans hstatus⟩
  refine ⟨hsound, ?_, h.le, by omega, ?_, ?_, ?_, ?_⟩
  · exact h.keeps.trans (hbelow.mono fun i hi => Nat.lt_of_lt_of_le hi h.le)
  · intro i hle hlt
    exact (h.reduced i hle hlt).keep h.sound hbelow hlt
  · have hnumbers := h.numbers
    rw [List.map_cons, List.length_cons, List.range'_succ, List.cons.injEq] at hnumbers
    exact hnumbers.2
  · intro x hx
    rw [(hsame hx).status]
    exact h.running x (List.mem_cons_of_mem g hx)
  · intro x hx
    obtain ⟨hne, hpaths⟩ := h.paths x (List.mem_cons_of_mem g hx)
    refine ⟨hne, ?_⟩
    intro trees htrees
    rw [(hsame hx).node]
    exact (hpaths trees htrees).extend hbelow.nodes

/-- All versions are reduced, or dropped. -/
theorem Reducing.foldl {step : Stack × Nat → Nat × List (List Subtree) → Stack × Nat}
    (hstep : ∀ w acc g groups, Reducing limit first a before w acc.2 (g :: groups) acc.1 →
      ∃ w', Reducing limit first a before w' (step acc g).2 groups (step acc g).1)
    {acc : Stack × Nat} (h : Reducing limit first a before w acc.2 groups acc.1) :
    ∃ w', Reducing limit first a before w' (groups.foldl step acc).2 []
      (groups.foldl step acc).1 := by
  induction groups generalizing w acc with
  | nil => exact ⟨w, h⟩
  | cons g groups ih =>
      obtain ⟨w', h'⟩ := hstep w acc g groups h
      exact ih h'

theorem exists_of_mergeDown {table : Table} {v except : Nat}
    (h : s.mergeDown table v except = some s') : ∃ j, s.merge table j v = some s' := by
  obtain ⟨j, -, hj⟩ := List.exists_of_findSome?_eq_some h
  exact ⟨j, (Option.ite_none_left_eq_some.mp hj).2⟩

/-- A node over what was taken off a version, with the extras behind it, takes the version to where
it was before. -/
theorem advanced_reduced (table : Table) (source : Source) (hs : s.Sound limit)
    (hat : s.At w (s.position w)) (r : Reduction) {trees : List Subtree}
    (htrees : Spans s.nodes (s.head w).node trees a) (hlimit : a ≤ limit) (extra : Bool)
    (target : Nat) :
    let node := build table source r (s.position w) (splitExtras trees).1
    Advanced limit w a s ((splitExtras trees).2.foldl (fun s t => s.push table w (some t) target)
      (s.push table w (some (if extra then node.withExtra true else node)) target)) := by
  intro node
  have hfollow := htrees.follow
  have hstop := htrees.stop
  rw [← Stack.position_eq, ← splitExtras_append trees] at hfollow hstop
  have hnode : Over (s.position w) (splitExtras trees).1 node :=
    over_node table source (.symbol r.symbol) r.labels r.fields _ (follow_append.mp hfollow).1
      fun _ => rfl
  generalize hshown : (if extra then node.withExtra true else node) = shown
  have hshown : Over (s.position w) (splitExtras trees).1 shown := by
    rw [← hshown]
    split
    · exact hnode.withExtra true
    · exact hnode
  exact hstop ▸ hs.pushOver table hat hfollow (hstop ▸ hlimit) hshown target

end

/-- A stack with further versions, all of them at one place. -/
structure Fresh (limit a : Nat) (s s' : Stack) : Prop extends Grown limit s s' where
  fresh : ∀ i, s.versions ≤ i → i < s'.versions → s'.At i a

section

variable (table : Table) (source : Source) {limit a v : Nat} {s : Stack}

theorem Fresh.refl (hs : s.Sound limit) : Fresh limit a s s :=
  ⟨.refl hs, fun _ hle hlt => absurd hlt (Nat.not_lt_of_le hle)⟩

/-- What is taken off a version waits to be reduced. -/
theorem Popped.reducing {popped : Stack × List Slice} (h : Popped limit a s popped) :
    Reducing limit s.versions a s s.versions 0 (groupSlices popped.2) popped.1 := by
  have hgrouped := grouped_groupSlices h.slices.sorted
  have hnumbers : (groupSlices popped.2).map Prod.fst =
      List.range' s.versions (popped.1.versions - s.versions) := by
    have hrange : (List.range' s.versions (popped.1.versions - s.versions)).Pairwise (· < ·) :=
      List.pairwise_lt_range'
    refine List.Perm.eq_of_pairwise ?_ hgrouped.increasing hrange ?_
    · intro i j _ _ hij hji
      exact absurd hij (Nat.lt_asymm hji)
    · rw [List.perm_ext_iff_of_nodup (hgrouped.increasing.imp Nat.ne_of_lt)
        (hrange.imp Nat.ne_of_lt)]
      intro i
      rw [hgrouped.mem_iff, List.mem_range'_1]
      constructor
      · rintro ⟨x, hx, rfl⟩
        have := h.slices.version x hx
        omega
      · intro hi
        exact (h.slices.all i hi.1 (by omega)).1
  have hlength : (groupSlices popped.2).length = popped.1.versions - s.versions := by
    have := congrArg List.length hnumbers
    rwa [List.length_map, List.length_range'] at this
  have hmem {g : Nat × List (List Subtree)} (hg : g ∈ groupSlices popped.2) :
      s.versions ≤ g.1 ∧ g.1 < popped.1.versions := by
    obtain ⟨x, hx, hxg⟩ := (hgrouped.mem_iff g.1).mp (List.mem_map_of_mem hg)
    exact hxg ▸ h.slices.version x hx
  have hversions := h.versions_le
  refine ⟨h.sound, h.keeps.mono fun _ _ => trivial, Nat.le_refl _, by omega, ?_, ?_, ?_, ?_⟩
  · intro i hle hlt
    exact absurd hlt (Nat.not_lt_of_le hle)
  · rw [hnumbers, hlength, Nat.add_zero]
  · intro g hg t
    rw [Nat.sub_zero, (h.slices.all g.1 (hmem hg).1 (hmem hg).2).2]
    exact nofun
  · intro g hg
    obtain ⟨hne, hpaths⟩ := hgrouped.paths g hg
    refine ⟨hne, ?_⟩
    intro trees htrees
    exact h.slices.spans _ (hpaths trees htrees)

/-- All versions that come of a reduction are where the reduced one is. -/
theorem reduce_fresh (hs : s.Sound limit) (hat : s.At v a) (r : Reduction) (endsComment : Bool) :
    Fresh limit a s (s.reduce table source v r endsComment).2 ∧
      ∀ w ∈ (s.reduce table source v r endsComment).1,
        s.versions ≤ w ∧ w < (s.reduce table source v r endsComment).2.versions := by
  have hlimit : a ≤ limit := hat.place ▸ hs.position_le v
  have hpopped := popCount_popped hs hat.place r.count
  rw [reduce]
  generalize s.popCount v r.count = popped at hpopped ⊢
  dsimp only
  generalize hfinal : List.foldl _ (popped.1, 0) (groupSlices popped.2) = final
  obtain ⟨w, hdone⟩ : ∃ w, Reducing limit s.versions a s w final.2 [] final.1 := by
    rw [← hfinal]
    refine Reducing.foldl ?_ hpopped.reducing
    rintro w ⟨s', removed⟩ ⟨version, paths⟩ groups h
    have hw : version - removed = w := h.number
    dsimp only at h ⊢
    rw [hw]
    split
    · exact ⟨w, h.drop ⟨h.sound, .refl _ _, rfl, h.at_first⟩ (h.sound.remove w) rfl (.refl _ _)⟩
    · obtain ⟨hne, hpaths⟩ := h.paths _ List.mem_cons_self
      obtain ⟨first, others, rfl⟩ := List.exists_cons_of_ne_nil hne
      dsimp only at hpaths
      rw [hw] at hpaths
      obtain ⟨trees, hmem, hbest⟩ :=
        bestNode_eq table source r (s'.position w) first others
      rw [List.headD_cons, List.tail_cons, hbest]
      have hadvanced := advanced_reduced table source h.sound h.at_first r (hpaths trees hmem) hlimit
        (endsComment && Lookup.next table (s'.state w) r.symbol = s'.state w)
        (Lookup.next table (s'.state w) r.symbol)
      split
      · rename_i merged hmerged
        obtain ⟨j, hj⟩ := exists_of_mergeDown hmerged
        obtain ⟨hsound, hversions, hkeeps⟩ := hadvanced.sound.merge hj
        exact ⟨w, h.drop hadvanced hsound hversions hkeeps⟩
      · exact ⟨w + 1, h.keep hadvanced⟩
  have hversions : final.1.versions = w := by
    rw [hdone.versions, List.length_nil, Nat.add_zero]
  refine ⟨⟨⟨hdone.sound, .of_lt (hdone.keeps.mono fun i hi => hi.1)⟩, ?_⟩, ?_⟩
  · intro i hle hlt
    exact hdone.reduced i hle (hversions ▸ hlt)
  · intro u hu
    split at hu
    · cases hu
      exact ⟨Nat.le_refl _, ‹_›⟩
    · cases hu

/-! ### All reductions -/

/-- The reductions of a version one after the other. -/
theorem foldl_reduce_fresh (hs : s.Sound limit) (hat : s.At v a) (reductions : List Reduction)
    (acc : Option Nat × Stack) (hacc : Fresh limit a s acc.2)
    (hnew : ∀ w ∈ acc.1, s.versions ≤ w ∧ w < acc.2.versions) :
    let reduced := reductions.foldl
      (fun ((_, s) : Option Nat × Stack) r => s.reduce table source v r false) acc
    Fresh limit a s reduced.2 ∧ ∀ w ∈ reduced.1, s.versions ≤ w ∧ w < reduced.2.versions := by
  induction reductions generalizing acc with
  | nil => exact ⟨hacc, hnew⟩
  | cons r reductions ih =>
      obtain ⟨hfresh, hw⟩ := reduce_fresh table source hacc.sound (hacc.at hs hat) r false
      refine ih _ ⟨hacc.toGrown.trans hfresh.toGrown, ?_⟩ ?_
      · intro i hle hlt
        rcases Nat.lt_or_ge i acc.2.versions with hold | hnew
        · exact hfresh.at hacc.sound (hacc.fresh i hle hold)
        · exact hfresh.fresh i hnew hlt
      · intro w hmem
        exact ⟨Nat.le_trans hacc.versions_le (hw w hmem).1, (hw w hmem).2⟩

end

/-- A stack that has grown out of one that had at least `k` versions.  Of those, all but `v` are
where they were, and `v` and all others are at the place `a`. -/
structure Above (limit k v a : Nat) (before s : Stack) : Prop where
  sound : s.Sound limit
  keeps : before.Keeps (fun i => i < k ∧ i ≠ v) s
  le : k ≤ s.versions
  here : v < k → s.At v a
  fresh : ∀ i, k ≤ i → i < s.versions → s.At i a

section

variable (table : Table) (source : Source) {limit k v a w u : Nat} {before s s' : Stack}

theorem Above.start (hs : s.Sound limit) (hat : s.At v a) : Above limit s.versions v a s s :=
  ⟨hs, .refl _ s, Nat.le_refl _, fun _ => hat, fun _ hle hlt => absurd hlt (Nat.not_lt_of_le hle)⟩

/-- One version was added. -/
theorem Above.new (h : Grown limit before s) (hversions : s.versions = before.versions + 1)
    (hat : s.At before.versions a) : Above limit before.versions before.versions a before s := by
  refine ⟨h.sound, h.keeps.mono fun _ _ => trivial, h.versions_le, fun _ => hat, ?_⟩
  intro i hle hlt
  obtain rfl : i = before.versions := by omega
  exact hat

theorem Above.grown (h : Above limit before.versions v a before s) (hv : before.versions ≤ v) :
    Grown limit before s := by
  refine ⟨h.sound, .of_lt (h.keeps.mono ?_)⟩
  exact fun i hi => ⟨hi.1, Nat.ne_of_lt (Nat.lt_of_lt_of_le hi.1 hv)⟩

theorem Above.at_of_lt (h : Above limit k v a before s) (hu : u = v ∨ k ≤ u)
    (hlt : u < s.versions) : s.At u a := by
  rcases Nat.lt_or_ge u k with huk | huk
  · obtain rfl : u = v := by omega
    exact h.here huk
  · exact h.fresh u huk hlt

theorem Above.add (h : Above limit k v a before s) (hs' : Fresh limit a s s') :
    Above limit k v a before s' := by
  refine ⟨hs'.sound, h.keeps.trans (hs'.keeps.mono fun _ _ => trivial),
    Nat.le_trans h.le hs'.versions_le, ?_, ?_⟩
  · exact fun hv => hs'.at h.sound (h.here hv)
  · intro i hle hlt
    rcases Nat.lt_or_ge i s.versions with hold | hnew
    · exact hs'.at h.sound (h.fresh i hle hold)
    · exact hs'.fresh i hnew hlt

/-- A version that is removed, or merged into another one. -/
theorem Above.drop (h : Above limit k v a before s) (hw : k ≤ w) (hlt : w < s.versions)
    (hsound : s'.Sound limit) (hversions : s'.versions = (s.remove w).versions)
    (hkeeps : (s.remove w).Keeps (fun _ => True) s') : Above limit k v a before s' := by
  have hremoved := (keeps_remove s w).trans (hkeeps.mono fun _ _ => trivial)
  have hcount := hversions
  rw [versions_remove, if_pos hlt] at hcount
  refine ⟨hsound, ?_, by omega, ?_, ?_⟩
  · exact h.keeps.trans (hremoved.mono fun i hi => Nat.lt_of_lt_of_le hi.1 hw)
  · exact fun hv => (h.here hv).keep h.sound hremoved (Nat.lt_of_lt_of_le hv hw)
  · intro i hle hi
    have hat : s.At (if i < w then i else i + 1) a := by
      split
      · exact h.fresh i hle (by omega)
      · exact h.fresh (i + 1) (by omega) (by omega)
    exact (hat.remove (hversions ▸ hi)).keep (h.sound.remove w) hkeeps trivial

/-- A later version is put in the place of `v`, or of a further one. -/
theorem Above.renumber (h : Above limit k v a before s) (hu : u = v ∨ k ≤ u) (hw : k ≤ w)
    (huw : u < w) (hlt : w < s.versions) : Above limit k v a before (s.renumber w u) := by
  have hkeeps := keeps_renumber huw hlt
  have hat : (s.renumber w u).At u a := (h.fresh w hw hlt).renumber huw
  refine ⟨h.sound.renumber hlt, ?_, ?_, ?_, ?_⟩
  · refine h.keeps.trans (hkeeps.mono ?_)
    rintro i ⟨hik, hiv⟩
    exact ⟨Nat.lt_of_lt_of_le hik hw, by omega⟩
  · rw [versions_renumber huw hlt]
    omega
  · intro hv
    by_cases huv : v = u
    · exact huv ▸ hat
    · exact (h.here hv).keep h.sound hkeeps ⟨Nat.lt_of_lt_of_le hv hw, huv⟩
  · intro i hle hi
    have hcount := versions_renumber huw hlt
    rcases Nat.lt_or_ge i w with hiw | hiw
    · by_cases hiu : i = u
      · exact hiu ▸ hat
      · exact (h.fresh i hle (by omega)).keep h.sound hkeeps ⟨hiw, hiu⟩
    · have hnext := h.fresh (i + 1) (by omega) (by omega)
      refine ⟨hi, ?_, ?_⟩
      · rw [Stack.position_eq, nodes_renumber, head_renumber_of_le huw hiw]
        exact hnext.place
      · rw [head_renumber_of_le huw hiw]
        exact hnext.running

/-- All reductions from a version on, which is `v` or a further one.  Only if a token is asked for,
versions that cannot use it are removed. -/
theorem reduceAllFrom_above {token initial : Nat} (htoken : token = Productions.endSymbol ∨ k ≤ v)
    (hinitial : k ≤ initial) (fuel : Nat) {round : Nat} {canShift : Bool} (hu : u = v ∨ k ≤ u)
    (h : Above limit k v a before s) :
    Above limit k v a before
      (s.reduceAllFrom table source v token initial fuel round u canShift).2 := by
  induction fuel generalizing round u canShift s with
  | zero => exact h
  | succ fuel ih =>
      rw [reduceAllFrom]
      dsimp only
      split
      case isTrue => exact h
      case isFalse hlt =>
        have hlt : u < s.versions := Nat.lt_of_not_le hlt
        have hat : s.At u a := h.at_of_lt hu hlt
        have hnext : (if u = v then s.versions else u + 1) = v ∨
            k ≤ (if u = v then s.versions else u + 1) := by
          right
          have := h.le
          split <;> omega
        split
        · rename_i merged hmerged
          obtain ⟨j, hj, hmerge⟩ := List.exists_of_findSome?_eq_some hmerged
          obtain ⟨hle, hmerge⟩ := Option.ite_none_right_eq_some.mp hmerge
          have hju : j < u := List.mem_range.mp hj
          obtain ⟨hsound, hversions, hkeeps⟩ := h.sound.merge hmerge
          exact ih hu (h.drop (by omega) hlt hsound hversions hkeeps)
        · generalize reductionsOn table (s.state u) _ = on
          obtain ⟨hfresh, hnew⟩ := foldl_reduce_fresh table source h.sound hat on.1
            (none, s) (.refl h.sound) nofun
          generalize List.foldl _ (none, s) on.1 = reduced at hfresh hnew ⊢
          have habove := h.add hfresh
          have hdropped : Above limit k v a before
              (if token ≠ Productions.endSymbol then reduced.2.remove u else reduced.2) := by
            split
            · refine habove.drop ?_ (Nat.lt_of_lt_of_le hlt hfresh.versions_le)
                (habove.sound.remove u) rfl (.refl _ _)
              rcases hu with rfl | hu
              · exact htoken.resolve_left ‹_›
              · exact hu
            · exact habove
          split
          · exact ih hnext habove
          · split
            · rename_i w hw
              split
              · obtain ⟨hle, hwlt⟩ := hnew w hw
                exact ih hu (habove.renumber hu (Nat.le_trans h.le hle)
                  (Nat.lt_of_lt_of_le hlt hle) hwlt)
              · exact ih hnext hdropped
            · exact ih hnext hdropped

theorem reduceAll_above (token : Nat) (htoken : token = Productions.endSymbol ∨ k ≤ v)
    (h : Above limit k v a before s) :
    Above limit k v a before (s.reduceAll table source v token).2 :=
  reduceAllFrom_above table source htoken h.le _ (Or.inl rfl) h

end

end Stack

/-! ### Finished trees -/

namespace Parse

/-- A parse with a sound stack, whose best tree lies in the text. -/
structure Sound (limit : Nat) (p : Parse) : Prop where
  stack : p.stack.Sound limit
  finished : ∀ t ∈ p.finished, IsNext limit 0 t

section

variable (table : Table) (source : Source) {limit a v : Nat} {p : Parse} {lookahead : Subtree}

theorem Sound.withStack (h : p.Sound limit) {s : Stack} (hs : s.Sound limit) :
    Sound limit { p with stack := s } :=
  ⟨hs, h.finished⟩

/-- A root stands where the subtrees of its version stand. -/
theorem rootOf_isNext {trees : List Subtree} {root : Subtree} (htrees : Follow a trees)
    (hlimit : stopOf a trees ≤ limit) (h : rootOf table source trees = some root) :
    IsNext limit a root := by
  rw [rootOf] at h
  have hreverse := List.prefix_iff_eq_append.mp
    (List.takeWhile_prefix (l := trees.reverse) fun t : Subtree => t.info.extra)
  generalize trees.reverse.takeWhile (fun t : Subtree => t.info.extra) = after at h hreverse
  generalize trees.reverse.drop after.length = rest at h hreverse
  cases rest with
  | nil => cases h
  | cons t before =>
      cases h
      obtain rfl : before.reverse ++ t :: after.reverse = trees := by
        simpa using congrArg List.reverse hreverse
      obtain ⟨hfollow, hstop⟩ := htrees.open_at
      have ht := follow_cons.mp (follow_append.mp htrees).2
      have hbefore : a ≤ t.info.before :=
        Nat.le_trans (follow_append.mp htrees).1.le_stopOf ht.1
      -- over nothing at all, the root stands where the last subtree began
      rcases hinner : before.reverse ++ t.children ++ after.reverse with _ | ⟨first, others⟩
      · have hnode := over_node table source t.kind t.info.labels t.info.fields t.info.before
          (follow_nil t.info.before) fun _ => rfl
        refine (hnode.isNext ?_).of_le hbefore
        calc t.info.before
            ≤ t.info.stop := ht.2.1.before_le_stop
          _ ≤ stopOf t.info.stop after.reverse := ht.2.2.le_stopOf
          _ = stopOf a (before.reverse ++ t :: after.reverse) := by rw [stopOf_append]; rfl
          _ ≤ limit := hlimit
      · rw [hinner] at hfollow hstop
        exact (over_node table source t.kind t.info.labels t.info.fields _ hfollow nofun).isNext
          (Nat.le_trans hstop hlimit)

/-- Every finished tree lies in the text. -/
theorem accept_sound (h : p.Sound limit) (hat : p.stack.At v a) (hnext : IsNext limit a lookahead) :
    (p.accept table source v lookahead).Sound limit := by
  have hpush := h.stack.pushNext table hat hnext 1
  rw [accept]
  generalize p.stack.push table v (some lookahead) 1 = s at hpush ⊢
  have hpopped := Stack.popAll_popped hpush.sound hpush.here.place
  generalize s.popAll v = popped at hpopped ⊢
  dsimp only
  -- each path down to the first node can be the finished tree
  generalize hfinal : List.foldl _ p popped.2 = final
  have hroots : final.Sound limit := by
    rw [← hfinal]
    refine List.foldlRecOn (motive := Sound limit) popped.2 _ h ?_
    intro best hbest slice hslice
    split
    · exact hbest
    · rename_i root hroot
      have hspans := hpopped.slices.spans slice hslice
      have hnew : IsNext limit 0 root :=
        (rootOf_isNext table source hspans.follow (hspans.stop ▸ hnext.stop) hroot).of_le (Nat.zero_le _)
      refine ⟨hbest.stack, ?_⟩
      rintro t ⟨⟩
      split
      · exact hnew
      · split
        · exact hnew
        · exact hbest.finished _ ‹_›
  refine hroots.withStack (Stack.Sound.halt ?_ v)
  split
  · exact hpopped.sound
  · exact hpopped.sound.remove _

end

end Parse

end PubSweep.Parsing
