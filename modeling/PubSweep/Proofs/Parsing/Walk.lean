import PubSweep.Proofs.Parsing.Stack

/-!
Walks down the stack.

Whatever a walk takes off a version follows one another from the node where it stops up to the place
that the version has reached (`Stack.walk_sound`).
-/

namespace PubSweep.Parsing

open Grammar Subtree

theorem Walker.spans_follow {nodes : Array StackNode} {limit stop : Nat} {w : Walker} {l : Link}
    (hnodes : SoundNodes limit nodes) (hw : Spans nodes w.node w.trees stop)
    (hl : l ∈ (nodes.getD w.node default).links) :
    Spans nodes (w.follow l).node (w.follow l).trees stop := by
  have hdown := hw.down hnodes hl
  obtain ⟨node, tree⟩ := l
  cases tree <;> exact hdown

namespace Stack

/-- Slices of all versions from `first` on, in their order.  Each reaches from the node of its
version up to a place. -/
structure Slices (first stop : Nat) (s : Stack) (slices : List Slice) : Prop where
  sorted : slices.Pairwise fun x y => x.version ≤ y.version
  version : ∀ x ∈ slices, first ≤ x.version ∧ x.version < s.versions
  all : ∀ v, first ≤ v → v < s.versions →
    (∃ x ∈ slices, x.version = v) ∧ (s.head v).status = .active
  spans : ∀ x ∈ slices, Spans s.nodes (s.head x.version).node x.trees stop

section

variable {limit first stop : Nat} {s : Stack} {slices : List Slice}

/-- What is taken off goes behind what was taken off for the same node, or to a new version. -/
theorem addSlice_eq (s : Stack) (original node : Nat) (trees : List Subtree)
    (slices : List Slice) :
    (∃ before x after, slices = before ++ x :: after ∧ (s.head x.version).node = node ∧
        s.addSlice original node trees slices =
          (s, before ++ x :: ⟨x.version, trees⟩ :: after)) ∨
      ∃ new : Head, new.node = node ∧ new.status = .active ∧
        s.addSlice original node trees slices =
          ({ s with heads := s.heads.push new }, slices ++ [⟨s.versions, trees⟩]) := by
  rw [addSlice]
  dsimp only
  generalize hfind : slices.reverse.findIdx? _ = found
  cases found with
  | none => exact Or.inr ⟨_, rfl, rfl, rfl⟩
  | some back =>
      left
      obtain ⟨hback, hnode, -⟩ := List.findIdx?_eq_some_iff_getElem.mp hfind
      rw [List.length_reverse] at hback
      rw [List.getElem_reverse, beq_iff_eq] at hnode
      have hi : slices.length - back = slices.length - 1 - back + 1 := by omega
      have hj : slices.length - 1 - back < slices.length := by omega
      refine ⟨slices.take (slices.length - 1 - back), slices[slices.length - 1 - back],
        slices.drop (slices.length - 1 - back + 1), ?_, hnode, ?_⟩
      · rw [← List.drop_eq_getElem_cons hj, List.take_append_drop]
      · dsimp only
        rw [hi, Nat.add_sub_cancel, List.getD_eq_getElem?_getD, List.getElem?_eq_getElem hj,
          List.take_succ_eq_append_getElem hj, Option.getD_some]
        simp only [List.append_assoc, List.cons_append, List.nil_append]

theorem Slices.insert {before after : List Slice} {x : Slice}
    (h : Slices first stop s (before ++ x :: after)) {trees : List Subtree}
    (htrees : Spans s.nodes (s.head x.version).node trees stop) :
    Slices first stop s (before ++ x :: ⟨x.version, trees⟩ :: after) := by
  refine ⟨?_, ?_, ?_, ?_⟩
  · have hsorted := h.sorted
    rw [List.pairwise_append, List.pairwise_cons] at hsorted
    obtain ⟨hbefore, ⟨hx, hafter⟩, hbetween⟩ := hsorted
    rw [List.pairwise_append, List.pairwise_cons, List.pairwise_cons]
    refine ⟨hbefore, ⟨?_, hx, hafter⟩, ?_⟩
    · intro y hy
      rcases List.mem_cons.mp hy with rfl | hy
      · exact Nat.le_refl _
      · exact hx y hy
    · intro a ha y hy
      have hax := hbetween a ha x List.mem_cons_self
      rcases List.mem_cons.mp hy with rfl | hy
      · exact hax
      · rcases List.mem_cons.mp hy with rfl | hy
        · exact hax
        · exact hbetween a ha y (List.mem_cons_of_mem x hy)
  · intro y hy
    have hmem : y ∈ before ++ x :: after ∨ y = ⟨x.version, trees⟩ := by
      simp only [List.mem_append, List.mem_cons] at hy ⊢
      tauto
    rcases hmem with hold | rfl
    · exact h.version y hold
    · exact h.version x (by simp)
  · intro v hle hlt
    obtain ⟨⟨y, hy, hyv⟩, hactive⟩ := h.all v hle hlt
    refine ⟨⟨y, ?_, hyv⟩, hactive⟩
    simp only [List.mem_append, List.mem_cons] at hy ⊢
    tauto
  · intro y hy
    have hmem : y ∈ before ++ x :: after ∨ y = ⟨x.version, trees⟩ := by
      simp only [List.mem_append, List.mem_cons] at hy ⊢
      tauto
    rcases hmem with hold | rfl
    · exact h.spans y hold
    · exact htrees

theorem Slices.add (h : Slices first stop s slices) (hfirst : first ≤ s.versions) {new : Head}
    (hactive : new.status = .active) {trees : List Subtree}
    (htrees : Spans s.nodes new.node trees stop) :
    Slices first stop { s with heads := s.heads.push new } (slices ++ [⟨s.versions, trees⟩]) := by
  have hversions : versions { s with heads := s.heads.push new } = s.versions + 1 :=
    Array.size_push _
  have hold {v : Nat} (hv : v < s.versions) :
      head { s with heads := s.heads.push new } v = s.head v := by
    rw [head, getD_push]
    exact if_neg (Nat.ne_of_lt hv)
  refine ⟨?_, ?_, ?_, ?_⟩
  · rw [List.pairwise_append]
    refine ⟨h.sorted, List.pairwise_singleton _ _, ?_⟩
    intro x hx y hy
    rw [List.mem_singleton] at hy
    subst hy
    exact Nat.le_of_lt (h.version x hx).2
  · intro x hx
    rw [hversions]
    rcases List.mem_append.mp hx with hx | hx
    · exact ⟨(h.version x hx).1, Nat.lt_succ_of_lt (h.version x hx).2⟩
    · rw [List.mem_singleton] at hx
      subst hx
      exact ⟨hfirst, Nat.lt_succ_self _⟩
  · intro v hle hlt
    rw [hversions] at hlt
    rcases Nat.lt_succ_iff_lt_or_eq.mp hlt with hlt | rfl
    · obtain ⟨⟨x, hx, hxv⟩, hv⟩ := h.all v hle hlt
      rw [hold hlt]
      exact ⟨⟨x, List.mem_append_left _ hx, hxv⟩, hv⟩
    · rw [head_add]
      exact ⟨⟨_, List.mem_append_right _ List.mem_cons_self, rfl⟩, hactive⟩
  · intro x hx
    rcases List.mem_append.mp hx with hx | hx
    · rw [hold (h.version x hx).2]
      exact h.spans x hx
    · rw [List.mem_singleton] at hx
      subst hx
      rw [head_add]
      exact htrees

end

/-- A walk from a stack: nothing changes but that there are new versions for what is taken off. -/
structure Walk.Sound {σ : Type} (limit stop : Nat) (s : Stack) (walk : Walk σ) : Prop
    extends Grown limit s walk.stack where
  nodes : walk.stack.nodes = s.nodes
  slices : Slices s.versions stop walk.stack walk.slices

section

variable {σ : Type} {limit stop a : Nat} {s : Stack} {walk : Walk σ} {version : Nat}
  {visit : σ → Walker → StackNode → σ × Visit}

theorem Walk.Sound.addSlice (h : walk.Sound limit stop s) (original : Nat) {node : Nat}
    {trees : List Subtree} (htrees : Spans s.nodes node trees stop) :
    Walk.Sound limit stop s
      { walk with
        stack := (walk.stack.addSlice original node trees walk.slices).1
        slices := (walk.stack.addSlice original node trees walk.slices).2 } := by
  rw [← h.nodes] at htrees
  rcases walk.stack.addSlice_eq original node trees walk.slices with
    ⟨before, x, after, hslices, hnode, heq⟩ | ⟨new, hnode, hactive, heq⟩
  · rw [heq]
    have hold := h.slices
    rw [hslices] at hold
    exact ⟨h.toGrown, h.nodes, hold.insert (hnode ▸ htrees)⟩
  · rw [heq]
    have hnew : SoundHead limit walk.stack.nodes new := by
      refine ⟨hnode ▸ htrees.node, ?_⟩
      intro t ht
      rw [hactive] at ht
      cases ht
    exact ⟨h.toGrown.trans (h.sound.add hnew), h.nodes,
      h.slices.add h.versions_le hactive (hnode ▸ htrees)⟩

/-- One round keeps all walkers on their way. -/
theorem walkRound_sound (walkers kept new : List Walker)
    (hwalkers : ∀ w ∈ walkers ++ kept ++ new, Spans s.nodes w.node w.trees stop)
    (hs : s.Sound limit) (h : walk.Sound limit stop s) :
    (∀ w ∈ (walkRound version visit walkers kept new walk).1, Spans s.nodes w.node w.trees stop) ∧
      (walkRound version visit walkers kept new walk).2.Sound limit stop s := by
  induction walkers generalizing kept new walk with
  | nil =>
      rw [walkRound]
      refine ⟨?_, h⟩
      intro w hw
      exact hwalkers w (by simpa using hw)
  | cons w rest ih =>
      rw [walkRound]
      have hw : Spans s.nodes w.node w.trees stop := hwalkers w (by simp)
      have hrest : ∀ x ∈ rest ++ kept ++ new, Spans s.nodes x.node x.trees stop := by
        intro x hx
        exact hwalkers x (by simp only [List.cons_append, List.mem_cons]; exact Or.inr hx)
      obtain ⟨memory, v⟩ := visit walk.memory w (walk.stack.node w.node)
      dsimp only
      have htaken : Walk.Sound limit stop s (if v.take then
          { stack := (walk.stack.addSlice version w.node w.trees walk.slices).1
            slices := (walk.stack.addSlice version w.node w.trees walk.slices).2
            memory := memory : Walk σ }
          else { walk with memory }) := by
        have hmemory : Walk.Sound limit stop s { walk with memory } :=
          ⟨h.toGrown, h.nodes, h.slices⟩
        split
        · exact hmemory.addSlice version hw
        · exact hmemory
      have hlinks : ∀ l ∈ (walk.stack.node w.node).links.toList,
          Spans s.nodes (w.follow l).node (w.follow l).trees stop := by
        intro l hl
        rw [node, h.nodes] at hl
        exact w.spans_follow hs.nodes hw (by simpa using hl)
      cases hcases : (walk.stack.node w.node).links.toList with
      | nil => exact ih kept new hrest htaken
      | cons first others =>
          rw [hcases] at hlinks
          dsimp only
          split
          · exact ih kept new hrest htaken
          · refine ih _ _ ?_ htaken
            intro x hx
            simp only [List.mem_append, List.mem_cons, List.mem_reverse, List.mem_map] at hx
            rcases hx with (hx | rfl | hx) | ⟨l, hl, rfl⟩ | hx
            · exact hrest x (by simp [hx])
            · exact hlinks first List.mem_cons_self
            · exact hrest x (by simp [hx])
            · exact hlinks l (List.mem_cons_of_mem first (List.mem_of_mem_take hl))
            · exact hrest x (by simp [hx])

theorem walkDown_sound (fuel : Nat) (walkers : List Walker)
    (hwalkers : ∀ w ∈ walkers, Spans s.nodes w.node w.trees stop) (hs : s.Sound limit)
    (h : walk.Sound limit stop s) :
    (walkDown version visit fuel walkers walk).Sound limit stop s := by
  induction fuel generalizing walkers walk with
  | zero => exact h
  | succ fuel ih =>
      cases walkers with
      | nil => exact h
      | cons w rest =>
          obtain ⟨hround, hwalk⟩ := @walkRound_sound σ limit stop s walk version visit (w :: rest)
            [] [] (by simpa using hwalkers) hs h
          rw [walkDown]
          · exact ih _ hround hwalk
          · nofun

/-- Whatever is taken off a version reaches from a node up to where the version is. -/
theorem walk_sound (hs : s.Sound limit) (hplace : s.position version = stop) (memory : σ) :
    (s.walk version visit memory).Sound limit stop s := by
  rw [walk]
  apply walkDown_sound
  · intro w hw
    rw [List.mem_singleton] at hw
    subst hw
    exact hplace ▸ spans_nil (hs.node_lt version)
  · exact hs
  · refine ⟨.refl hs, rfl, .nil, nofun, ?_, nofun⟩
    intro v hle hlt
    exact absurd hlt (Nat.not_lt_of_le hle)

/-- What is taken off versions, and the versions that are left. -/
structure Popped (limit stop : Nat) (s : Stack) (popped : Stack × List Slice) : Prop
    extends Grown limit s popped.1 where
  slices : Slices s.versions stop popped.1 popped.2

theorem Walk.Sound.popped {walk : Walk σ} (h : walk.Sound limit stop s) :
    Popped limit stop s (walk.stack, walk.slices) :=
  ⟨h.toGrown, h.slices⟩

theorem popCount_popped (hs : s.Sound limit) (hplace : s.position version = stop) (count : Nat) :
    Popped limit stop s (s.popCount version count) :=
  (walk_sound hs hplace ()).popped

theorem popAll_popped (hs : s.Sound limit) (hplace : s.position version = stop) :
    Popped limit stop s (s.popAll version) :=
  (walk_sound hs hplace ()).popped

/-- A new version that is left. -/
theorem Slices.at_version {slices : List Slice} {first : Nat} (h : Slices first stop s slices)
    {v : Nat} (hle : first ≤ v) (hlt : v < s.versions) : s.At v (s.position v) := by
  refine ⟨hlt, rfl, ?_⟩
  intro t ht
  rw [(h.all v hle hlt).2] at ht
  cases ht

/-- A version after an error was taken off its top.  What was inside the error can come behind where
the version then is, and ends where the version was. -/
structure ErrorTaken (limit a : Nat) (s : Stack) (v : Nat) (popped : Stack × Option Subtree) :
    Prop where
  sound : popped.1.Sound limit
  keeps : s.Keeps (· ≠ v) popped.1
  versions : s.versions ≤ popped.1.versions
  inside : ∃ b, popped.1.At v b ∧ Follow b ((popped.2.map (·.children)).getD []) ∧
    stopOf b ((popped.2.map (·.children)).getD []) ≤ a

theorem popError_taken (hs : s.Sound limit) {v : Nat} (hat : s.At v a) :
    ErrorTaken limit a s v (s.popError v) := by
  rw [popError]
  split
  case isFalse => exact ⟨hs, .refl _ _, Nat.le_refl _, a, hat, follow_nil a, Nat.le_refl a⟩
  case isTrue =>
    dsimp only
    generalize htaken : s.walk v _ false = walk
    have hwalk : walk.Sound limit a s := htaken ▸ walk_sound hs hat.place false
    rcases hslices : walk.slices with _ | ⟨x, rest⟩
    · exact ⟨hwalk.sound, hwalk.keeps.mono fun _ _ => trivial, hwalk.versions_le, a,
        hat.keep hs hwalk.keeps trivial, follow_nil a, Nat.le_refl a⟩
    · have hx : x ∈ walk.slices := hslices ▸ List.mem_cons_self
      obtain ⟨hle, hlt⟩ := hwalk.slices.version x hx
      have hspans := hwalk.slices.spans x hx
      have hv : v < x.version := Nat.lt_of_lt_of_le hat.version hle
      have hkeeps := keeps_renumber hv hlt
      dsimp only
      refine ⟨hwalk.sound.renumber hlt, ?_, ?_, _, (hwalk.slices.at_version hle hlt).renumber hv, ?_⟩
      · refine .of_lt ((hwalk.keeps.mono fun _ _ => trivial).trans (hkeeps.mono ?_))
        exact fun i hi => ⟨Nat.lt_of_lt_of_le hi.1 hle, hi.2⟩
      · rw [versions_renumber hv hlt]
        omega
      · have hfollow := hspans.follow
        have hstop := hspans.stop
        rw [← Stack.position_eq] at hfollow hstop
        dsimp only
        generalize x.trees = trees at hfollow hstop ⊢
        rcases trees with _ | ⟨t, ts⟩
        · exact ⟨follow_nil _, Nat.le_of_eq hstop⟩
        · obtain ⟨hbefore, hplaced, hrest⟩ := follow_cons.mp hfollow
          obtain ⟨hchildren, hend⟩ := hplaced.follow_children
          refine ⟨hchildren.mono hbefore, ?_⟩
          calc stopOf _ t.children
              ≤ stopOf t.info.before t.children := stopOf_mono hbefore _
            _ ≤ t.info.stop := hend
            _ ≤ stopOf t.info.stop ts := hrest.le_stopOf
            _ = a := hstop

end

end Stack

end PubSweep.Parsing
