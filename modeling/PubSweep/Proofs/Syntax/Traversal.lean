import Mathlib.Data.List.Basic
import PubSweep.Proofs.Syntax.Places

/-!
The calls of a walk, one by one.

A cursor has three moves: to the first child, to the next sibling and to the node above.  `Call`
says what a call of a walk does with them; a call that finds no child climbs, and `climbs_iff` says
that this comes to an end.  `calls_visit_sites` is the main statement: the calls give the nodes of
the tree one after the other, each before the nodes below it, and nothing after the last one.
-/

namespace PubSweep.Syntax

/-! ### The nodes of a tree and the ways to them -/

/-- A node, and the way to it from the root: the numbers of the children to go into. -/
structure Site where
  way : List Nat
  node : Node

namespace Node

/-- The node at the end of a way. -/
def at? : List Nat → Node → Option Node
  | [], n => some n
  | i :: way, n => n.children[i]?.bind (at? way)

mutual
/-- The nodes of a tree at the end of a way: its root, then the nodes below its children, from left
to right. -/
def sitesBelow (way : List Nat) : Node → List Site
  | mk i cs => ⟨way, mk i cs⟩ :: sitesAmong way 0 cs

/-- The nodes of some children of the node at the end of a way; `number` is that of the first. -/
def sitesAmong (way : List Nat) (number : Nat) : List Node → List Site
  | [] => []
  | c :: cs => sitesBelow (way ++ [number]) c ++ sitesAmong way (number + 1) cs
end

/-- The nodes of a tree, each before the nodes below it. -/
def sites (root : Node) : List Site := root.sitesBelow []

theorem sitesBelow_eq (way : List Nat) (n : Node) :
    n.sitesBelow way = ⟨way, n⟩ :: sitesAmong way 0 n.children := by
  cases n with
  | mk i cs => rw [sitesBelow, children]

theorem mem_sitesAmong {way : List Nat} {number : Nat} {cs : List Node} {s : Site} :
    s ∈ sitesAmong way number cs ↔
      ∃ (i : Nat) (c : Node), cs[i]? = some c ∧ s ∈ c.sitesBelow (way ++ [number + i]) := by
  induction cs generalizing number with
  | nil => simp [sitesAmong]
  | cons c cs ih =>
      rw [sitesAmong, List.mem_append, ih]
      constructor
      · rintro (hs | ⟨i, d, hd, hs⟩)
        · exact ⟨0, c, rfl, hs⟩
        · exact ⟨i + 1, d, hd, by rwa [Nat.add_assoc, Nat.add_comm 1 i] at hs⟩
      · rintro ⟨i, d, hd, hs⟩
        cases i with
        | zero =>
            cases Option.some.inj hd
            exact Or.inl hs
        | succ i => exact Or.inr ⟨i, d, hd, by rwa [Nat.add_assoc, Nat.add_comm 1 i]⟩

/-- The nodes are those to which ways lead. -/
theorem mem_sitesBelow_iff (n : Node) : ∀ {way : List Nat} {s : Site},
    s ∈ n.sitesBelow way ↔ ∃ rest, s.way = way ++ rest ∧ n.at? rest = some s.node := by
  induction n using induct with
  | mk info cs ih =>
      intro way s
      rw [sitesBelow_eq, List.mem_cons, mem_sitesAmong]
      constructor
      · rintro (rfl | ⟨i, c, hc, hs⟩)
        · exact ⟨[], by simp [at?]⟩
        · obtain ⟨rest, hway, hnode⟩ := (ih c (List.mem_of_getElem? hc)).mp hs
          refine ⟨i :: rest, by simp [hway], ?_⟩
          rw [at?, hc, Option.bind_some, hnode]
      · rintro ⟨rest, hway, hnode⟩
        cases rest with
        | nil =>
            left
            rw [at?, Option.some.injEq] at hnode
            rw [List.append_nil] at hway
            rw [hnode, ← hway]
        | cons i rest =>
            right
            rw [at?, Option.bind_eq_some_iff] at hnode
            obtain ⟨c, hc, hrest⟩ := hnode
            refine ⟨i, c, hc, (ih c (List.mem_of_getElem? hc)).mpr ⟨rest, ?_, hrest⟩⟩
            simp [hway]

theorem mem_sites_iff {root : Node} {s : Site} : s ∈ root.sites ↔ root.at? s.way = some s.node := by
  rw [sites, mem_sitesBelow_iff]
  simp

/-- The ways go up as words do in a dictionary: no node comes twice, none comes behind a node below
it, and what is below a child comes before the next child. -/
theorem pairwise_sitesBelow (n : Node) (way : List Nat) :
    (n.sitesBelow way).Pairwise fun s t => s.way < t.way := by
  induction n using induct generalizing way with
  | mk info cs ih =>
      have hamong : ∀ number, (sitesAmong way number cs).Pairwise fun s t => s.way < t.way := by
        induction cs with
        | nil => simp [sitesAmong]
        | cons c cs ihRest =>
            intro number
            rw [sitesAmong, List.pairwise_append]
            refine ⟨ih c List.mem_cons_self _,
              ihRest (fun d hd => ih d (List.mem_cons_of_mem c hd)) _, ?_⟩
            intro s hs t ht
            obtain ⟨i, d, -, ht⟩ := mem_sitesAmong.mp ht
            obtain ⟨left, hleft, -⟩ := (mem_sitesBelow_iff _).mp hs
            obtain ⟨right, hright, -⟩ := (mem_sitesBelow_iff _).mp ht
            rw [hleft, hright, List.append_assoc, List.append_assoc]
            apply List.append_left_lt
            exact List.Lex.rel (by omega)
      rw [sitesBelow, List.pairwise_cons]
      refine ⟨?_, hamong 0⟩
      intro t ht
      obtain ⟨i, d, -, ht⟩ := mem_sitesAmong.mp ht
      obtain ⟨rest, hway, -⟩ := (mem_sitesBelow_iff _).mp ht
      rw [hway, List.append_assoc]
      nth_rewrite 1 [← List.append_nil way]
      apply List.append_left_lt
      exact List.Lex.nil

end Node

/-! ### One call -/

/-- Climbing: to the next sibling of a node, else to the node above and on from there, until there
is none.  A climb is finite; it has some `rounds`. -/
inductive Climbs : (rounds : Nat) → Cursor → (found : Option Cursor) → Prop
  | sibling {c next : Cursor} (hnext : c.nextSibling? = some next) : Climbs 0 c (some next)
  | top {c : Cursor} (hnone : c.nextSibling? = none) (htop : c.parent? = none) : Climbs 0 c none
  | up {rounds : Nat} {c above : Cursor} {found : Option Cursor} (hnone : c.nextSibling? = none)
      (habove : c.parent? = some above) (hrest : Climbs rounds above found) :
      Climbs (rounds + 1) c found

/-- A call of a walk: the cursor moves on, and the node that was under it is given. -/
inductive Call : Preorder → (given : Option Cursor) → Preorder → Prop
  | over : Call ⟨none⟩ none ⟨none⟩
  | down {c child : Cursor} (hchild : c.firstChild? = some child) :
      Call ⟨some c⟩ (some c) ⟨some child⟩
  | climb {rounds : Nat} {c : Cursor} {found : Option Cursor} (hnone : c.firstChild? = none)
      (hclimb : Climbs rounds c found) : Call ⟨some c⟩ (some c) ⟨found⟩

/-- Every climb comes to its end, with no more rounds than there are nodes above. -/
theorem exists_climbs (c : Cursor) :
    ∃ rounds ≤ c.ancestors.length, Climbs rounds c (Cursor.climb? c.frames) := by
  obtain ⟨node, frames⟩ := c
  induction frames generalizing node with
  | nil => exact ⟨0, Nat.zero_le _, .top rfl rfl⟩
  | cons f frames ih =>
      obtain ⟨parent, _ | ⟨sibling, later⟩⟩ := f
      · obtain ⟨rounds, hrounds, hclimbs⟩ := ih parent
        exact ⟨rounds + 1, Nat.succ_le_succ hrounds, .up rfl rfl hclimbs⟩
      · exact ⟨0, Nat.zero_le _, .sibling rfl⟩

/-- There is one way only to climb. -/
theorem Climbs.unique {m n : Nat} {c : Cursor} {found other : Option Cursor}
    (h : Climbs m c found) (h' : Climbs n c other) : m = n ∧ found = other := by
  induction h generalizing n other with
  | sibling hnext =>
      cases h' with
      | sibling hnext' => exact ⟨rfl, hnext.symm.trans hnext'⟩
      | top hnone | up hnone => cases hnone.symm.trans hnext
  | top hnone htop =>
      cases h' with
      | sibling hnext => cases hnone.symm.trans hnext
      | top => exact ⟨rfl, rfl⟩
      | up _ habove => cases htop.symm.trans habove
  | up hnone habove _ ih =>
      cases h' with
      | sibling hnext => cases hnone.symm.trans hnext
      | top _ htop => cases htop.symm.trans habove
      | up _ habove' hrest =>
          cases habove.symm.trans habove'
          obtain ⟨rfl, rfl⟩ := ih hrest
          exact ⟨rfl, rfl⟩

theorem climbs_iff {c : Cursor} {found : Option Cursor} :
    (∃ rounds, Climbs rounds c found) ↔ Cursor.climb? c.frames = found := by
  obtain ⟨rounds, -, hclimbs⟩ := exists_climbs c
  constructor
  · rintro ⟨_, h⟩
    exact (hclimbs.unique h).2
  · rintro rfl
    exact ⟨rounds, hclimbs⟩

/-- `next` makes the only call that there is. -/
theorem call_iff {p q : Preorder} {given : Option Cursor} :
    Call p given q ↔ p.next = (given, q) := by
  obtain ⟨_ | c⟩ := p
  · constructor
    · rintro ⟨⟩
      rfl
    · intro h
      cases h
      exact .over
  · simp only [Preorder.next, Cursor.advance?, Prod.mk.injEq]
    cases hchild : c.firstChild? with
    | some child =>
        constructor
        · intro h
          cases h with
          | down hdown =>
              cases hchild.symm.trans hdown
              exact ⟨rfl, rfl⟩
          | climb hnone => cases hchild.symm.trans hnone
        · rintro ⟨rfl, rfl⟩
          exact .down hchild
    | none =>
        constructor
        · intro h
          cases h with
          | down hdown => cases hchild.symm.trans hdown
          | climb _ hclimb => exact ⟨rfl, by rw [climbs_iff.mp ⟨_, hclimb⟩]⟩
        · rintro ⟨rfl, rfl⟩
          obtain ⟨rounds, hclimb⟩ := climbs_iff.mpr (rfl : Cursor.climb? c.frames = _)
          exact .climb hchild hclimb

/-! ### The place of a cursor -/

namespace Frame

/-- The number of the child gone into. -/
def number (f : Frame) : Nat := f.parent.children.length - f.later.length - 1

/-- A child was gone into: not all children are later ones. -/
def Inside (f : Frame) : Prop := f.later.length < f.parent.children.length

end Frame

namespace Cursor

/-- The way that leads through some levels, of which the nearest comes first. -/
def wayThrough : List Frame → List Nat
  | [] => []
  | f :: frames => wayThrough frames ++ [f.number]

/-- The node under a cursor and the way to it. -/
def site (c : Cursor) : Site := ⟨wayThrough c.frames, c.node⟩

/-- What is behind the nodes below a cursor. -/
def pending : List Frame → List Site
  | [] => []
  | f :: frames => Node.sitesAmong (wayThrough frames) (f.number + 1) f.later ++ pending frames

end Cursor

namespace Preorder

/-- What a walk has still to give. -/
def remaining (p : Preorder) : List Site :=
  match p.cursor with
  | none => []
  | some c => c.node.sitesBelow (Cursor.wayThrough c.frames) ++ Cursor.pending c.frames

/-- A walk of which each level is one that was gone into. -/
def Inside (p : Preorder) : Prop := ∀ c ∈ p.cursor, ∀ f ∈ c.frames, f.Inside

/-- The walk behind some calls. -/
def after : (count : Nat) → Preorder → Preorder
  | 0, p => p
  | count + 1, p => after count p.next.2

/-- What is pending is what a climb has still to give. -/
theorem remaining_climb? {frames : List Frame} (h : ∀ f ∈ frames, f.Inside) :
    remaining ⟨Cursor.climb? frames⟩ = Cursor.pending frames ∧
      Inside ⟨Cursor.climb? frames⟩ := by
  induction frames with
  | nil => exact ⟨rfl, nofun⟩
  | cons f frames ih =>
      obtain ⟨hf, hframes⟩ := List.forall_mem_cons.mp h
      obtain ⟨parent, _ | ⟨sibling, later⟩⟩ := f
      · exact ih hframes
      · have hlater : later.length + 1 < parent.children.length := hf
        have hnumber : Frame.number ⟨parent, sibling :: later⟩ + 1 =
            Frame.number ⟨parent, later⟩ := by
          simp only [Frame.number, List.length_cons]
          omega
        constructor
        · rw [Cursor.pending, hnumber, Node.sitesAmong]
          simp only [remaining, Cursor.climb?, Cursor.wayThrough, Cursor.pending,
            List.append_assoc]
        · rintro _ ⟨⟩ g hg
          rcases List.mem_cons.mp hg with rfl | hg
          · exact Nat.lt_of_succ_lt hlater
          · exact hframes g hg

/-- A call gives the first of what a walk has still to give, and leaves the others. -/
theorem next_spec {p : Preorder} (h : p.Inside) :
    p.next.1.map Cursor.site = p.remaining.head? ∧ p.next.2.remaining = p.remaining.tail ∧
      p.next.2.Inside := by
  obtain ⟨_ | ⟨⟨info, cs⟩, frames⟩⟩ := p
  · exact ⟨rfl, rfl, h⟩
  · have hframes := h _ rfl
    refine ⟨rfl, ?_⟩
    cases cs with
    | nil => exact remaining_climb? hframes
    | cons c cs =>
        constructor
        · simp [next, Cursor.advance?, Cursor.firstChild?, Node.children, remaining,
            Cursor.wayThrough, Cursor.pending, Frame.number, Node.sitesBelow, Node.sitesAmong]
        · rintro _ ⟨⟩ f hf
          rcases List.mem_cons.mp hf with rfl | hf
          · exact Nat.lt_succ_self _
          · exact hframes f hf

theorem after_spec {p : Preorder} (h : p.Inside) (count : Nat) :
    (p.after count).remaining = p.remaining.drop count ∧ (p.after count).Inside := by
  induction count generalizing p with
  | zero => exact ⟨rfl, h⟩
  | succ count ih =>
      obtain ⟨-, hremaining, hinside⟩ := next_spec h
      obtain ⟨hdrop, hafter⟩ := ih hinside
      rw [hremaining, List.drop_tail] at hdrop
      exact ⟨hdrop, hafter⟩

end Preorder

/-- The calls of a walk give the nodes of a tree one after the other: a node, then what is below its
children from left to right, and then nothing, however often it is called.  Each node is given once.
Every call ends, with a climb of no more rounds than there are nodes above. -/
theorem calls_visit_sites (root : Node) :
    (∀ count, ((Preorder.start root).after count).next.1.map Cursor.site = root.sites[count]?) ∧
      (∀ way node, ⟨way, node⟩ ∈ root.sites ↔ root.at? way = some node) ∧
      (root.sites.map Site.way).Pairwise (· < ·) ∧
      (∀ p given q, Call p given q ↔ p.next = (given, q)) ∧
      ∀ c : Cursor, ∃ rounds ≤ c.ancestors.length, ∃ found, Climbs rounds c found := by
  have hstart : (Preorder.start root).Inside := by
    rintro _ ⟨⟩
    simp
  have hremaining : (Preorder.start root).remaining = root.sites := by
    simp [Preorder.start, Preorder.remaining, Cursor.wayThrough, Cursor.pending, Node.sites]
  refine ⟨?_, fun way node => Node.mem_sites_iff, ?_, fun p given q => call_iff, ?_⟩
  · intro count
    obtain ⟨hdrop, hinside⟩ := Preorder.after_spec hstart count
    rw [(Preorder.next_spec hinside).1, hdrop, hremaining, List.head?_drop]
  · rw [List.pairwise_map]
    exact Node.pairwise_sitesBelow root []
  · intro c
    obtain ⟨rounds, hrounds, hclimbs⟩ := exists_climbs c
    exact ⟨rounds, hrounds, _, hclimbs⟩

end PubSweep.Syntax
