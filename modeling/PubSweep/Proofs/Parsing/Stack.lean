import PubSweep.Parsing.Stack
import PubSweep.Proofs.Parsing.Subtree

/-!
The shared stack of a parse.

In a sound stack (`Stack.Sound`) the subtree of a link lies between the places of the nodes that the
link joins, and so the subtrees on a path follow one another (`Spans`).  All that changes a stack
keeps it sound, and says which versions it leaves where they are (`Stack.Keeps`).
-/

namespace PubSweep.Parsing

open Grammar Subtree

/-! ### Arrays with a default -/

section

variable {α : Type} [Inhabited α] {xs : Array α} {n i : Nat}

theorem getD_set (hn : n < xs.size) (x : α) :
    (xs.setIfInBounds n x).getD i default = if i = n then x else xs.getD i default := by
  rw [Array.getD_eq_getD_getElem?, Array.getD_eq_getD_getElem?, Array.getElem?_setIfInBounds]
  by_cases h : n = i
  · subst h
    simp [hn]
  · simp [h, Ne.symm h]

theorem getD_set_of_ne (hi : i ≠ n) (x : α) :
    (xs.setIfInBounds n x).getD i default = xs.getD i default := by
  rw [Array.getD_eq_getD_getElem?, Array.getD_eq_getD_getElem?,
    Array.getElem?_setIfInBounds_ne (Ne.symm hi)]

theorem getD_push (x : α) :
    (xs.push x).getD i default = if i = xs.size then x else xs.getD i default := by
  rw [Array.getD_eq_getD_getElem?, Array.getD_eq_getD_getElem?, Array.getElem?_push]
  split <;> rfl

theorem getD_erase :
    (xs.eraseIdxIfInBounds n).getD i default =
      xs.getD (if i < n then i else i + 1) default := by
  simp only [Array.getD_eq_getD_getElem?, ← Array.getElem?_toList, Array.toList_eraseIdxIfInBounds,
    List.getElem?_eraseIdx]
  split <;> rfl

theorem getD_modify_of_ne (hi : i ≠ n) (f : α → α) :
    (xs.modify n f).getD i default = xs.getD i default := by
  rw [Array.getD_eq_getD_getElem?, Array.getElem?_modify, if_neg (Ne.symm hi),
    Array.getD_eq_getD_getElem?]

theorem getD_modify (hn : n < xs.size) (f : α → α) :
    (xs.modify n f).getD i default =
      if i = n then f (xs.getD n default) else xs.getD i default := by
  by_cases h : i = n
  · subst h
    rw [Array.getD_eq_getD_getElem?, Array.getElem?_modify, if_pos rfl, if_pos rfl,
      Array.getElem?_eq_getElem hn, Array.getD_eq_getD_getElem?, Array.getElem?_eq_getElem hn]
    rfl
  · rw [getD_modify_of_ne h, if_neg h]

omit [Inhabited α] in
theorem size_erase :
    (xs.eraseIdxIfInBounds n).size = if n < xs.size then xs.size - 1 else xs.size := by
  rw [← Array.length_toList, Array.toList_eraseIdxIfInBounds, List.length_eraseIdx,
    Array.length_toList]

omit [Inhabited α] in
theorem mem_erase {x : α} (h : x ∈ xs.eraseIdxIfInBounds n) : x ∈ xs := by
  rw [← Array.mem_toList_iff, Array.toList_eraseIdxIfInBounds] at h
  exact Array.mem_toList_iff.mp (List.mem_of_mem_eraseIdx h)

omit [Inhabited α] in
theorem mem_extract {j : Nat} {x : α} (h : x ∈ xs.extract i j) : x ∈ xs := by
  obtain ⟨k, hk, rfl⟩ := Array.mem_extract_iff_getElem.mp h
  exact Array.getElem_mem _

omit [Inhabited α] in
theorem mem_swap {j : Nat} {x : α} (h : x ∈ xs.swapIfInBounds i j) : x ∈ xs := by
  rw [Array.swapIfInBounds_def] at h
  split at h
  · split at h
    · exact (Array.swap_perm _ _).mem_iff.mp h
    · exact h
  · exact h

theorem mem_modify {f : α → α} {x : α} (h : x ∈ xs.modify n f) :
    x ∈ xs ∨ (n < xs.size ∧ x = f (xs.getD n default)) := by
  obtain ⟨i, hi⟩ := Array.getElem?_of_mem h
  rw [Array.getElem?_modify] at hi
  by_cases hni : n = i
  · subst hni
    rw [if_pos rfl] at hi
    obtain ⟨y, hy, rfl⟩ := Option.map_eq_some_iff.mp hi
    obtain ⟨hlt, rfl⟩ := Array.getElem?_eq_some_iff.mp hy
    refine Or.inr ⟨hlt, ?_⟩
    rw [Array.getD_eq_getD_getElem?, hy, Option.getD_some]
  · rw [if_neg hni] at hi
    exact Or.inl (Array.mem_of_getElem? hi)

end

/-! ### Nodes -/

/-- The place in the text that a node has reached. -/
def placeOf (nodes : Array StackNode) (n : Nat) : Nat := (nodes.getD n default).position

/-- Subtrees that follow one another from a node up to a place. -/
structure Spans (nodes : Array StackNode) (n : Nat) (trees : List Subtree) (stop : Nat) : Prop where
  node : n < nodes.size
  follow : Follow (placeOf nodes n) trees
  stop : stopOf (placeOf nodes n) trees = stop

/-- Nodes whose links lead down through subtrees, none of them behind `limit`. -/
structure SoundNodes (limit : Nat) (nodes : Array StackNode) : Prop where
  links : ∀ n < nodes.size, ∀ l ∈ (nodes.getD n default).links,
    Spans nodes l.node l.tree.toList (placeOf nodes n)
  limit : ∀ n < nodes.size, placeOf nodes n ≤ limit

/-- Nodes that are still there, and where they were. -/
structure Extends (nodes nodes' : Array StackNode) : Prop where
  size : nodes.size ≤ nodes'.size
  place : ∀ n < nodes.size, placeOf nodes' n = placeOf nodes n

section

variable {nodes nodes' nodes'' : Array StackNode} {limit n stop : Nat} {trees : List Subtree}

theorem Extends.refl (nodes : Array StackNode) : Extends nodes nodes :=
  ⟨Nat.le_refl _, fun _ _ => rfl⟩

theorem Extends.trans (h : Extends nodes nodes') (h' : Extends nodes' nodes'') :
    Extends nodes nodes'' where
  size := Nat.le_trans h.size h'.size
  place n hn := (h'.place n (Nat.lt_of_lt_of_le hn h.size)).trans (h.place n hn)

theorem Spans.extend (h : Spans nodes n trees stop) (hextends : Extends nodes nodes') :
    Spans nodes' n trees stop := by
  have hplace := hextends.place n h.node
  refine ⟨Nat.lt_of_lt_of_le h.node hextends.size, ?_, ?_⟩
  · rw [hplace]
    exact h.follow
  · rw [hplace]
    exact h.stop

theorem spans_nil (hn : n < nodes.size) : Spans nodes n [] (placeOf nodes n) :=
  ⟨hn, follow_nil _, rfl⟩

/-- One link further down. -/
theorem Spans.down (h : Spans nodes n trees stop) (hnodes : SoundNodes limit nodes) {l : Link}
    (hl : l ∈ (nodes.getD n default).links) : Spans nodes l.node (l.tree.toList ++ trees) stop := by
  have hlink := hnodes.links n h.node l hl
  refine ⟨hlink.node, follow_append.mpr ⟨hlink.follow, ?_⟩, ?_⟩
  · rw [hlink.stop]
    exact h.follow
  · rw [stopOf_append, hlink.stop]
    exact h.stop

/-- A new link to a node that subtrees reach from. -/
theorem SoundNodes.set (hnodes : SoundNodes limit nodes) (hn : n < nodes.size) {l : Link}
    (hl : Spans nodes l.node l.tree.toList (placeOf nodes n)) (count : Nat) :
    let nodes' := nodes.setIfInBounds n
      { nodes.getD n default with links := (nodes.getD n default).links.push l, count }
    SoundNodes limit nodes' ∧ Extends nodes nodes' := by
  intro nodes'
  have hplace (i : Nat) : placeOf nodes' i = placeOf nodes i := by
    rw [placeOf, getD_set hn]
    by_cases hi : i = n
    · rw [if_pos hi, hi]
      rfl
    · rw [if_neg hi]
      rfl
  have hextends : Extends nodes nodes' := ⟨by simp [nodes'], fun i _ => hplace i⟩
  refine ⟨⟨?_, ?_⟩, hextends⟩
  · intro i hi k hk
    have hi' : i < nodes.size := by simpa [nodes'] using hi
    rw [hplace]
    rw [getD_set hn] at hk
    by_cases heq : i = n
    · subst heq
      rw [if_pos rfl] at hk
      rcases Array.mem_push.mp hk with hold | rfl
      · exact (hnodes.links i hi' k hold).extend hextends
      · exact hl.extend hextends
    · rw [if_neg heq] at hk
      exact (hnodes.links i hi' k hk).extend hextends
  · intro i hi
    rw [hplace]
    exact hnodes.limit i (by simpa [nodes'] using hi)

/-- A new node over a node that subtrees reach from. -/
theorem SoundNodes.push (hnodes : SoundNodes limit nodes) {new : StackNode} {l : Link}
    (hlinks : new.links = #[l]) (hl : Spans nodes l.node l.tree.toList new.position)
    (hlimit : new.position ≤ limit) :
    SoundNodes limit (nodes.push new) ∧ Extends nodes (nodes.push new) ∧
      placeOf (nodes.push new) nodes.size = new.position := by
  have hnew : placeOf (nodes.push new) nodes.size = new.position := by
    rw [placeOf, getD_push, if_pos rfl]
  have hextends : Extends nodes (nodes.push new) := by
    refine ⟨by simp, ?_⟩
    intro i hi
    rw [placeOf, getD_push, if_neg (Nat.ne_of_lt hi)]
    rfl
  refine ⟨⟨?_, ?_⟩, hextends, hnew⟩
  · intro i hi k hk
    rw [Array.size_push] at hi
    rcases Nat.lt_succ_iff_lt_or_eq.mp hi with hlt | rfl
    · rw [getD_push, if_neg (Nat.ne_of_lt hlt)] at hk
      rw [hextends.place i hlt]
      exact (hnodes.links i hlt k hk).extend hextends
    · rw [getD_push, if_pos rfl, hlinks, Array.mem_singleton] at hk
      subst hk
      rw [hnew]
      exact hl.extend hextends
  · intro i hi
    rw [Array.size_push] at hi
    rcases Nat.lt_succ_iff_lt_or_eq.mp hi with hlt | rfl
    · rw [hextends.place i hlt]
      exact hnodes.limit i hlt
    · rw [hnew]
      exact hlimit

/-- Links added one after the other. -/
theorem foldl_addLinks {add : Array StackNode → Link → Array StackNode} {links : Array Link}
    (hadd : ∀ nodes' l, SoundNodes limit nodes' → n < nodes'.size →
      Spans nodes' l.node l.tree.toList (placeOf nodes' n) →
        SoundNodes limit (add nodes' l) ∧ Extends nodes' (add nodes' l))
    (hnodes : SoundNodes limit nodes) (hn : n < nodes.size)
    (hlinks : ∀ l ∈ links, Spans nodes l.node l.tree.toList (placeOf nodes n)) :
    SoundNodes limit (links.foldl add nodes) ∧ Extends nodes (links.foldl add nodes) := by
  rw [← Array.foldl_toList]
  have hlist : ∀ l ∈ links.toList, Spans nodes l.node l.tree.toList (placeOf nodes n) := by
    simpa using hlinks
  clear hlinks
  generalize links.toList = list at hlist ⊢
  induction list generalizing nodes with
  | nil => exact ⟨hnodes, .refl nodes⟩
  | cons l list ih =>
      obtain ⟨hsound, hextends⟩ := hadd nodes l hnodes hn (hlist l List.mem_cons_self)
      have hrest : ∀ k ∈ list, Spans (add nodes l) k.node k.tree.toList
          (placeOf (add nodes l) n) := by
        intro k hk
        rw [hextends.place n hn]
        exact (hlist k (List.mem_cons_of_mem l hk)).extend hextends
      obtain ⟨hsounds, hextend⟩ := ih hsound (Nat.lt_of_lt_of_le hn hextends.size) hrest
      exact ⟨hsounds, hextends.trans hextend⟩

/-- Wherever a link is added further down, it is added at the same place in the text. -/
theorem addLink_sound {table : Table} (fuel : Nat) {l : Link} (hnodes : SoundNodes limit nodes)
    (hn : n < nodes.size) (hl : Spans nodes l.node l.tree.toList (placeOf nodes n)) :
    SoundNodes limit (Stack.addLink table fuel nodes n l) ∧
      Extends nodes (Stack.addLink table fuel nodes n l) := by
  induction fuel generalizing nodes n l with
  | zero => exact ⟨hnodes, .refl nodes⟩
  | succ fuel ih =>
      rw [Stack.addLink]
      by_cases hself : l.node = n
      · rw [if_pos hself]
        exact ⟨hnodes, .refl nodes⟩
      · rw [if_neg hself]
        dsimp only
        generalize hfind : Array.find? _ (nodes.getD n default).links = found
        cases found with
        | none =>
            by_cases hfull : (nodes.getD n default).links.size = Stack.maxLinks
            · rw [if_pos hfull]
              exact ⟨hnodes, .refl nodes⟩
            · rw [if_neg hfull]
              exact hnodes.set hn hl _
        | some e =>
            dsimp only
            by_cases hsame : e.node = l.node
            · rw [if_pos hsame]
              exact ⟨hnodes, .refl nodes⟩
            · rw [if_neg hsame]
              have he := hnodes.links n hn e (Array.mem_of_find?_eq_some hfind)
              have hplace : placeOf nodes e.node = placeOf nodes l.node := by
                have hmergeable := Array.find?_some hfind
                simp only [Bool.and_eq_true, Bool.or_eq_true, decide_eq_true_eq] at hmergeable
                exact (hmergeable.2.resolve_left hsame).1.2
              refine foldl_addLinks (fun nodes' k hsound hlt => ih hsound hlt) hnodes he.node ?_
              rw [hplace]
              exact hnodes.links l.node hl.node

end

/-! ### Versions -/

/-- Versions at the same node that go on in the same way. -/
structure Head.Same (h h' : Head) : Prop where
  node : h.node = h'.node
  status : h.status = h'.status

namespace Stack

/-- A version is at a node that is there, and the token that it waits with can come next. -/
structure SoundHead (limit : Nat) (nodes : Array StackNode) (h : Head) : Prop where
  node : h.node < nodes.size
  paused : ∀ t, h.status = .paused t → IsNext limit (placeOf nodes h.node) t

/-- A stack with sound nodes and versions. -/
structure Sound (limit : Nat) (s : Stack) : Prop where
  root : 0 < s.nodes.size
  nodes : SoundNodes limit s.nodes
  heads : ∀ h ∈ s.heads, SoundHead limit s.nodes h

/-- A version that has come to a place and does not wait. -/
structure At (s : Stack) (v stop : Nat) : Prop where
  version : v < s.versions
  place : s.position v = stop
  running : ∀ t, (s.head v).status ≠ .paused t

/-- Some versions are still at their nodes. -/
structure Keeps (kept : Nat → Prop) (s s' : Stack) : Prop where
  nodes : Extends s.nodes s'.nodes
  heads : ∀ i, kept i → i < s.versions → i < s'.versions ∧ (s'.head i).Same (s.head i)

/-- A stack in which all versions are where they were.  There may be more of them. -/
structure Grown (limit : Nat) (s s' : Stack) : Prop where
  sound : s'.Sound limit
  keeps : s.Keeps (fun _ => True) s'

section

variable {limit : Nat} {s s' s'' : Stack} {kept kept' : Nat → Prop} {table : Table} {v w a : Nat}

theorem position_eq (s : Stack) (v : Nat) : s.position v = placeOf s.nodes (s.head v).node := rfl

theorem head_mem (hv : v < s.versions) : s.head v ∈ s.heads := by
  have hget : s.heads[v]? = some (s.head v) := by
    rw [head, Array.getD_eq_getD_getElem?, Array.getElem?_eq_getElem hv, Option.getD_some]
  exact Array.mem_of_getElem? hget

theorem head_of_versions_le (hv : s.versions ≤ v) : s.head v = default := by
  rw [head, Array.getD_eq_getD_getElem?, Array.getElem?_eq_none hv, Option.getD_none]

theorem Sound.node_lt (h : s.Sound limit) (v : Nat) : (s.head v).node < s.nodes.size := by
  by_cases hv : v < s.versions
  · exact (h.heads _ (head_mem hv)).node
  · rw [head_of_versions_le (Nat.le_of_not_lt hv)]
    exact h.root

theorem Sound.position_le (h : s.Sound limit) (v : Nat) : s.position v ≤ limit :=
  h.nodes.limit _ (h.node_lt v)

/-- The versions of a sound stack may be put anywhere. -/
theorem Sound.withHeads (h : s.Sound limit) {heads : Array Head} (hheads : ∀ x ∈ heads, x ∈ s.heads) :
    Sound limit { s with heads } :=
  ⟨h.root, h.nodes, fun x hx => h.heads x (hheads x hx)⟩

theorem Keeps.refl (kept : Nat → Prop) (s : Stack) : s.Keeps kept s :=
  ⟨.refl _, fun _ _ hi => ⟨hi, rfl, rfl⟩⟩

theorem Keeps.trans (h : s.Keeps kept s') (h' : s'.Keeps kept s'') : s.Keeps kept s'' := by
  refine ⟨h.nodes.trans h'.nodes, ?_⟩
  intro i hkept hi
  obtain ⟨hi', hnode, hstatus⟩ := h.heads i hkept hi
  obtain ⟨hi'', hnode', hstatus'⟩ := h'.heads i hkept hi'
  exact ⟨hi'', hnode'.trans hnode, hstatus'.trans hstatus⟩

theorem Keeps.mono (h : s.Keeps kept s') (hle : ∀ i, kept' i → kept i) : s.Keeps kept' s' :=
  ⟨h.nodes, fun i hi => h.heads i (hle i hi)⟩

theorem Keeps.of_lt (h : s.Keeps (fun i => i < s.versions ∧ kept i) s') : s.Keeps kept s' :=
  ⟨h.nodes, fun i hkept hi => h.heads i ⟨hi, hkept⟩ hi⟩

theorem Keeps.position_eq (h : s.Keeps kept s') (hs : s.Sound limit) (hkept : kept v)
    (hv : v < s.versions) : s'.position v = s.position v := by
  obtain ⟨-, hnode, -⟩ := h.heads v hkept hv
  rw [Stack.position_eq, Stack.position_eq, hnode, h.nodes.place _ (hs.node_lt v)]

theorem At.keep (hat : s.At v a) (hs : s.Sound limit) (h : s.Keeps kept s') (hkept : kept v) :
    s'.At v a := by
  obtain ⟨hv, -, hstatus⟩ := h.heads v hkept hat.version
  refine ⟨hv, (h.position_eq hs hkept hat.version).trans hat.place, ?_⟩
  rw [hstatus]
  exact hat.running

theorem Grown.refl (hs : s.Sound limit) : Grown limit s s :=
  ⟨hs, .refl _ s⟩

theorem Grown.trans (h : Grown limit s s') (h' : Grown limit s' s'') : Grown limit s s'' :=
  ⟨h'.sound, h.keeps.trans h'.keeps⟩

theorem Grown.versions_le (h : Grown limit s s') : s.versions ≤ s'.versions := by
  by_contra hlt
  exact Nat.lt_irrefl _ (h.keeps.heads s'.versions trivial (Nat.lt_of_not_le hlt)).1

theorem Grown.at (h : Grown limit s s') (hs : s.Sound limit) (hat : s.At v a) : s'.At v a :=
  hat.keep hs h.keeps trivial

/-- Only a new version has gone on. -/
theorem Grown.change (h : Grown limit s s') (hsound : s''.Sound limit)
    (hkeeps : s'.Keeps (· ≠ w) s'') (hw : s.versions ≤ w) : Grown limit s s'' := by
  refine ⟨hsound, .of_lt ((h.keeps.mono fun _ _ => trivial).trans (hkeeps.mono ?_))⟩
  exact fun i hi => Nat.ne_of_lt (Nat.lt_of_lt_of_le hi.1 hw)

/-! ### Changing versions -/

theorem SoundHead.extend {nodes nodes' : Array StackNode} {h : Head} (hs : SoundHead limit nodes h)
    (hextends : Extends nodes nodes') : SoundHead limit nodes' h where
  node := Nat.lt_of_lt_of_le hs.node hextends.size
  paused t ht := by
    rw [hextends.place _ hs.node]
    exact hs.paused t ht

theorem SoundHead.same {nodes : Array StackNode} {h h' : Head} (hs : SoundHead limit nodes h)
    (hsame : h'.Same h) : SoundHead limit nodes h' where
  node := hsame.node ▸ hs.node
  paused t ht := by
    rw [hsame.node]
    exact hs.paused t (hsame.status ▸ ht)

theorem Sound.soundHead (hs : s.Sound limit) (hv : v < s.versions) :
    SoundHead limit s.nodes (s.head v) :=
  hs.heads _ (head_mem hv)

theorem head_modifyHead (s : Stack) (hv : v < s.versions) (f : Head → Head) (i : Nat) :
    (s.modifyHead v f).head i = if i = v then f (s.head v) else s.head i :=
  getD_modify hv f

theorem versions_modifyHead (s : Stack) (v : Nat) (f : Head → Head) :
    (s.modifyHead v f).versions = s.versions :=
  Array.size_modify

theorem Sound.modifyHead (hs : s.Sound limit) {f : Head → Head}
    (hf : v < s.versions → SoundHead limit s.nodes (f (s.head v))) :
    (s.modifyHead v f).Sound limit := by
  refine ⟨hs.root, hs.nodes, ?_⟩
  intro x hx
  rcases mem_modify hx with hold | ⟨hv, rfl⟩
  · exact hs.heads x hold
  · exact hf hv

theorem keeps_modifyHead (s : Stack) (v : Nat) (f : Head → Head) :
    s.Keeps (· ≠ v) (s.modifyHead v f) := by
  refine ⟨.refl _, ?_⟩
  intro i hne hi
  have hhead : (s.modifyHead v f).head i = s.head i := getD_modify_of_ne hne f
  rw [versions_modifyHead, hhead]
  exact ⟨hi, rfl, rfl⟩

/-- What is remembered of a version may change while it stays at its node. -/
theorem Sound.remember (hs : s.Sound limit) (v : Nat) {f : Head → Head} (hf : ∀ h, (f h).Same h) :
    Grown limit s (s.modifyHead v f) := by
  refine ⟨hs.modifyHead fun hv => (hs.soundHead hv).same (hf _), .refl _, ?_⟩
  intro i _ hi
  refine ⟨by rwa [versions_modifyHead], ?_⟩
  by_cases hiv : i = v
  · subst hiv
    rw [head_modifyHead s hi, if_pos rfl]
    exact hf _
  · exact ((keeps_modifyHead s v f).heads i hiv hi).2

theorem Sound.halt (hs : s.Sound limit) (v : Nat) : (s.halt v).Sound limit :=
  hs.modifyHead fun hv => ⟨(hs.soundHead hv).node, nofun⟩

theorem head_remove (s : Stack) (w i : Nat) :
    (s.remove w).head i = s.head (if i < w then i else i + 1) :=
  getD_erase

theorem versions_remove (s : Stack) (w : Nat) :
    (s.remove w).versions = if w < s.versions then s.versions - 1 else s.versions :=
  size_erase

theorem Sound.remove (hs : s.Sound limit) (w : Nat) : (s.remove w).Sound limit :=
  hs.withHeads fun _ => mem_erase

theorem At.remove {i : Nat} (hat : s.At (if i < w then i else i + 1) a)
    (hi : i < (s.remove w).versions) : (s.remove w).At i a := by
  refine ⟨hi, ?_, ?_⟩
  · rw [Stack.position_eq, head_remove]
    exact hat.place
  · rw [head_remove]
    exact hat.running

theorem keeps_remove (s : Stack) (w : Nat) : s.Keeps (· < w) (s.remove w) := by
  refine ⟨.refl _, ?_⟩
  intro i hi hlt
  rw [head_remove, if_pos hi, versions_remove]
  exact ⟨by split <;> omega, rfl, rfl⟩

theorem keeps_remove_remove (h : s.Keeps (fun _ => True) s') (hversions : s'.versions = s.versions)
    (w : Nat) : (s.remove w).Keeps (fun _ => True) (s'.remove w) := by
  refine ⟨h.nodes, ?_⟩
  intro i _ hi
  rw [versions_remove] at hi
  rw [head_remove, head_remove, versions_remove, hversions]
  refine ⟨hi, (h.heads _ trivial ?_).2⟩
  split at hi <;> split <;> omega

/-- A version that is merged into another one is removed; all others stay at their nodes. -/
theorem Sound.merge (hs : s.Sound limit) (h : s.merge table v w = some s') :
    s'.Sound limit ∧ s'.versions = (s.remove w).versions ∧
      (s.remove w).Keeps (fun _ => True) s' := by
  rw [Stack.merge] at h
  split at h
  case isFalse => cases h
  case isTrue hcan =>
    simp only [canMerge, Bool.and_eq_true, beq_iff_eq] at hcan
    have hplace : placeOf s.nodes (s.head w).node = placeOf s.nodes (s.head v).node :=
      hcan.1.1.2.symm
    have hlinks : ∀ l ∈ (s.top w).links,
        Spans s.nodes l.node l.tree.toList (placeOf s.nodes (s.head v).node) := by
      rw [← hplace]
      exact hs.nodes.links _ (hs.node_lt w)
    obtain ⟨hnodes, hextends⟩ := foldl_addLinks
      (fun nodes l => @addLink_sound nodes limit (s.head v).node table (s.nodes.size + 1) l)
      hs.nodes (hs.node_lt v) hlinks
    -- the count of the version that is merged into may be renewed
    obtain ⟨renewed, hsame, hsound, hversions, hkeeps, rfl⟩ : ∃ renewed : Stack,
        renewed.nodes = s.nodes ∧ renewed.Sound limit ∧ renewed.versions = s.versions ∧
        s.Keeps (fun _ => True) renewed ∧ s' = { renewed.remove w with
          nodes := (s.top w).links.foldl (fun nodes l =>
            addLink table (s.nodes.size + 1) nodes (s.head v).node l) s.nodes } := by
      cases h
      split
      · refine ⟨s.modifyHead v _, rfl, ?_, versions_modifyHead s v _, ?_, rfl⟩
        · refine (hs.remember v ?_).sound
          exact fun h => ⟨rfl, rfl⟩
        · refine (hs.remember v ?_).keeps
          exact fun h => ⟨rfl, rfl⟩
      · exact ⟨s, rfl, hs, rfl, .refl _ _, rfl⟩
    have hremoved := keeps_remove_remove hkeeps hversions w
    refine ⟨⟨Nat.lt_of_lt_of_le hs.root hextends.size, hnodes, ?_⟩, ?_, hextends, hremoved.heads⟩
    · intro x hx
      have hx := hsound.heads x (mem_erase hx)
      rw [hsame] at hx
      exact hx.extend hextends
    · change (renewed.remove w).versions = _
      rw [versions_remove, versions_remove, hversions]

/-- Puts version `v` in the place of the earlier version `w`. -/
theorem Sound.renumber (hs : s.Sound limit) (hv : v < s.versions) :
    (s.renumber v w).Sound limit := by
  rw [Stack.renumber]
  split
  · exact hs
  · refine ⟨hs.root, hs.nodes, ?_⟩
    intro x hx
    rcases Array.mem_or_eq_of_mem_setIfInBounds (mem_erase hx) with hold | rfl
    · exact hs.heads x hold
    · exact (hs.soundHead hv).same ⟨rfl, rfl⟩

theorem versions_renumber (hw : w < v) (hv : v < s.versions) :
    (s.renumber v w).versions = s.versions - 1 := by
  rw [Stack.renumber, if_neg (Nat.ne_of_gt hw), versions, size_erase, Array.size_setIfInBounds]
  exact if_pos hv

theorem head_renumber (hw : w < v) (hv : v < s.versions) {i : Nat} (hi : i < v) :
    i < (s.renumber v w).versions ∧
      ((s.renumber v w).head i).Same (s.head (if i = w then v else i)) := by
  constructor
  · rw [versions_renumber hw hv]
    omega
  · rw [Stack.renumber, if_neg (Nat.ne_of_gt hw), head, getD_erase, if_pos hi, getD_set (Nat.lt_trans hw hv)]
    by_cases hiw : i = w
    · rw [if_pos hiw, if_pos hiw]
      exact ⟨rfl, rfl⟩
    · rw [if_neg hiw, if_neg hiw]
      exact ⟨rfl, rfl⟩

theorem head_renumber_of_le (hw : w < v) {i : Nat} (hi : v ≤ i) :
    (s.renumber v w).head i = s.head (i + 1) := by
  rw [Stack.renumber, if_neg (Nat.ne_of_gt hw), head, getD_erase, if_neg (Nat.not_lt_of_le hi)]
  exact getD_set_of_ne (Nat.ne_of_gt (Nat.lt_succ_of_lt (Nat.lt_of_lt_of_le hw hi))) _

theorem nodes_renumber (s : Stack) (v w : Nat) : (s.renumber v w).nodes = s.nodes := by
  rw [Stack.renumber]
  split <;> rfl

theorem keeps_renumber (hw : w < v) (hv : v < s.versions) :
    s.Keeps (fun i => i < v ∧ i ≠ w) (s.renumber v w) := by
  refine ⟨?_, ?_⟩
  · rw [nodes_renumber]
    exact .refl _
  · rintro i ⟨hi, hne⟩ -
    have h := head_renumber hw hv hi
    rw [if_neg hne] at h
    exact h

theorem At.renumber (hat : s.At v a) (hw : w < v) : (s.renumber v w).At w a := by
  obtain ⟨hversion, hnode, hstatus⟩ := head_renumber hw hat.version hw
  rw [if_pos rfl] at hnode hstatus
  refine ⟨hversion, ?_, ?_⟩
  · rw [Stack.position_eq, nodes_renumber, hnode]
    exact hat.place
  · rw [hstatus]
    exact hat.running

/-- A further version. -/
theorem Sound.add (hs : s.Sound limit) {new : Head} (hnew : SoundHead limit s.nodes new) :
    Grown limit s { s with heads := s.heads.push new } := by
  refine ⟨⟨hs.root, hs.nodes, ?_⟩, .refl _, ?_⟩
  · intro x hx
    rcases Array.mem_push.mp hx with hold | rfl
    · exact hs.heads x hold
    · exact hnew
  · intro i _ hi
    refine ⟨?_, ?_⟩
    · rw [versions, Array.size_push]
      exact Nat.lt_succ_of_lt hi
    · have hhead : (s.heads.push new).getD i default = s.head i := by
        rw [getD_push]
        exact if_neg (Nat.ne_of_lt hi)
      rw [head, hhead]
      exact ⟨rfl, rfl⟩

theorem head_add (s : Stack) (new : Head) :
    head { s with heads := s.heads.push new } s.versions = new := by
  rw [head, getD_push]
  exact if_pos rfl

theorem Sound.copy (hs : s.Sound limit) (hat : s.At v a) :
    Grown limit s (s.copy v).2 ∧ (s.copy v).2.At s.versions a := by
  have hnew : Head.Same { s.head v with summary := none } (s.head v) := ⟨rfl, rfl⟩
  refine ⟨hs.add ((hs.soundHead hat.version).same hnew), ?_, ?_, ?_⟩
  · change s.heads.size < (s.heads.push _).size
    rw [Array.size_push]
    exact Nat.lt_succ_self _
  · rw [Stack.position_eq]
    change placeOf s.nodes (head { s with heads := s.heads.push _ } s.versions).node = a
    rw [head_add]
    exact hat.place
  · intro t
    change (head { s with heads := s.heads.push _ } s.versions).status ≠ _
    rw [head_add]
    exact hat.running t

theorem versions_copy (s : Stack) (v : Nat) : (s.copy v).2.versions = s.versions + 1 :=
  Array.size_push _

theorem keeps_extract (s : Stack) (k : Nat) :
    s.Keeps (· < k) { s with heads := s.heads.extract 0 k } := by
  refine ⟨.refl _, ?_⟩
  intro i hik hi
  have hlt : i < min k s.heads.size := Nat.lt_min.mpr ⟨hik, hi⟩
  have hhead : (s.heads.extract 0 k).getD i default = s.head i := by
    rw [Array.getD_eq_getD_getElem?, Array.getElem?_extract_of_lt (by simpa using hlt), head,
      Array.getD_eq_getD_getElem?, Array.getElem?_eq_getElem hi]
    simp only [Nat.zero_add]
    rfl
  refine ⟨by rw [versions, Array.size_extract]; omega, ?_⟩
  rw [head, hhead]
  exact ⟨rfl, rfl⟩

theorem keeps_append (s : Stack) (more : Array Head) :
    s.Keeps (fun _ => True) { s with heads := s.heads ++ more } := by
  refine ⟨.refl _, ?_⟩
  intro i _ hi
  refine ⟨?_, ?_⟩
  · rw [versions, Array.size_append]
    exact Nat.lt_add_right _ hi
  · have hhead : (s.heads ++ more).getD i default = s.head i := by
      rw [Array.getD_eq_getD_getElem?, Array.getElem?_append_left hi, head,
        Array.getD_eq_getD_getElem?]
    rw [head, hhead]
    exact ⟨rfl, rfl⟩

theorem push_nodes (s : Stack) (table : Table) (v : Nat) (tree : Option Subtree) (state : Nat) :
    ∃ new : StackNode, (s.push table v tree state).nodes = s.nodes.push new ∧
      new.links = #[⟨(s.head v).node, tree⟩] ∧
      new.position = stopOf (s.position v) tree.toList := by
  cases tree with
  | none => exact ⟨_, rfl, rfl, rfl⟩
  | some t => exact ⟨_, rfl, rfl, rfl⟩

theorem push_heads (s : Stack) (table : Table) (v : Nat) (tree : Option Subtree) (state : Nat) :
    ∃ x : Head, (s.push table v tree state).heads = s.heads.setIfInBounds v x ∧
      x.node = s.nodes.size ∧ x.status = (s.head v).status := by
  refine ⟨_, rfl, ?_⟩
  cases tree <;> exact ⟨rfl, rfl⟩

/-- A version has come to a place, and all others are where they were. -/
structure Advanced (limit v stop : Nat) (s s' : Stack) : Prop where
  sound : s'.Sound limit
  keeps : s.Keeps (· ≠ v) s'
  versions : s'.versions = s.versions
  here : s'.At v stop

theorem Advanced.trans {b : Nat} (h : Advanced limit v a s s') (h' : Advanced limit v b s' s'') :
    Advanced limit v b s s'' :=
  ⟨h'.sound, h.keeps.trans h'.keeps, h'.versions.trans h.versions, h'.here⟩

/-- Pushes a subtree, or the mark of an error. -/
theorem Sound.push (hs : s.Sound limit) (table : Table) (hat : s.At v a) (tree : Option Subtree)
    (htree : ∀ t ∈ tree, IsNext limit a t) (state : Nat) :
    Advanced limit v (stopOf a tree.toList) s (s.push table v tree state) := by
  obtain ⟨new, hnodes, hlinks, hplace⟩ := s.push_nodes table v tree state
  obtain ⟨x, hheads, hnode, hstatus⟩ := s.push_heads table v tree state
  have hposition : placeOf s.nodes (s.head v).node = a := hat.place
  have hspans : Spans s.nodes (s.head v).node tree.toList new.position := by
    refine ⟨hs.node_lt v, ?_, hplace.symm⟩
    rw [hposition]
    cases tree with
    | none => exact follow_nil a
    | some t => exact follow_singleton.mpr ⟨(htree t rfl).before, (htree t rfl).placed⟩
  rw [hat.place] at hplace
  have hlimit : new.position ≤ limit := by
    rw [hplace]
    cases tree with
    | none => exact hat.place ▸ hs.position_le v
    | some t => exact (htree t rfl).stop
  obtain ⟨hsound, hextends, hnew⟩ := hs.nodes.push hlinks hspans hlimit
  have hhead (i : Nat) : (s.push table v tree state).head i = if i = v then x else s.head i := by
    rw [head, hheads, getD_set hat.version]
    rfl
  have hversions : (s.push table v tree state).versions = s.versions := by
    rw [versions, hheads, Array.size_setIfInBounds]
    rfl
  refine ⟨⟨?_, ?_, ?_⟩, ⟨?_, ?_⟩, hversions, ?_, ?_, ?_⟩
  · rw [hnodes, Array.size_push]
    exact Nat.succ_pos _
  · rw [hnodes]
    exact hsound
  · rw [hheads, hnodes]
    intro y hy
    rcases Array.mem_or_eq_of_mem_setIfInBounds hy with hold | rfl
    · exact (hs.heads y hold).extend hextends
    · refine ⟨?_, ?_⟩
      · rw [hnode, Array.size_push]
        exact Nat.lt_succ_self _
      · intro t ht
        exact absurd (hstatus ▸ ht) (hat.running t)
  · rw [hnodes]
    exact hextends
  · intro i hi hlt
    rw [hversions, hhead, if_neg hi]
    exact ⟨hlt, rfl, rfl⟩
  · rw [hversions]
    exact hat.version
  · rw [position_eq, hhead, if_pos rfl, hnode, hnodes, hnew, hplace]
  · rw [hhead, if_pos rfl, hstatus]
    exact hat.running

theorem Sound.pushNext (hs : s.Sound limit) (table : Table) (hat : s.At v a) {t : Subtree}
    (ht : IsNext limit a t) (state : Nat) :
    Advanced limit v t.info.stop s (s.push table v (some t) state) := by
  refine hs.push table hat (some t) ?_ state
  rintro _ ⟨⟩
  exact ht

/-- Pushes subtrees that follow one another. -/
theorem Sound.pushAll (hs : s.Sound limit) (table : Table) (hat : s.At v a) {ts : List Subtree}
    (hts : Follow a ts) (hlimit : stopOf a ts ≤ limit) (state : Nat) :
    Advanced limit v (stopOf a ts) s
      (ts.foldl (fun s t => s.push table v (some t) state) s) := by
  induction ts generalizing s a with
  | nil => exact ⟨hs, .refl _ _, rfl, hat⟩
  | cons t ts ih =>
      obtain ⟨hbefore, hplaced, hrest⟩ := follow_cons.mp hts
      have hpush := hs.pushNext table hat
        ⟨hbefore, hplaced, Nat.le_trans hrest.le_stopOf hlimit⟩ state
      exact hpush.trans (ih hpush.sound hpush.here hrest hlimit)

/-- Pushes a node in the place of subtrees, and the extras behind them. -/
theorem Sound.pushOver (hs : s.Sound limit) (table : Table) (hat : s.At v a)
    {children extras : List Subtree} (hfollow : Follow a (children ++ extras))
    (hlimit : stopOf a (children ++ extras) ≤ limit) {t : Subtree} (ht : Over a children t)
    (state : Nat) :
    Advanced limit v (stopOf a (children ++ extras)) s
      (extras.foldl (fun s t => s.push table v (some t) state)
        (s.push table v (some t) state)) := by
  obtain ⟨-, hextras⟩ := follow_append.mp hfollow
  rw [stopOf_append] at hlimit ⊢
  have hpush := hs.pushNext table hat (ht.isNext (Nat.le_trans hextras.le_stopOf hlimit)) state
  rw [ht.stop] at hpush
  exact hpush.trans (hpush.sound.pushAll table hpush.here hextras hlimit state)

end

end Stack

end PubSweep.Parsing
