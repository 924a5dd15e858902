import PubSweep.Syntax.Cursor

/-!
The places of a tree: its nodes in the order of the text, each with the nodes above it.

`Node.places` is defined by recursion on the tree.  The main statement is `map_place_walk`: the
walk that a cursor drives visits exactly these places, in this order.
-/

namespace PubSweep.Syntax

/-- A node of a tree and the nodes above it, the nearest first. -/
structure Place where
  node : Node
  above : List Node

/-- The place under a cursor. -/
def Cursor.place (c : Cursor) : Place := ⟨c.node, c.ancestors⟩

/-- A cursor at a place; what follows behind the place is left out. -/
def Place.cursor (p : Place) : Cursor := ⟨p.node, p.above.map (⟨·, []⟩)⟩

@[simp] theorem Place.node_cursor (p : Place) : p.cursor.node = p.node := rfl

@[simp] theorem Place.ancestors_cursor (p : Place) : p.cursor.ancestors = p.above := by
  simp [cursor, Cursor.ancestors, Function.comp_def]

namespace Node

/-- Induction on a tree: a node has the property if all its children have it. -/
@[elab_as_elim]
theorem induct {motive : Node → Prop}
    (mk : ∀ i cs, (∀ c ∈ cs, motive c) → motive (.mk i cs)) : ∀ n, motive n
  | .mk i cs => mk i cs fun c _ => induct mk c

mutual
/-- The places of a tree below some nodes: its root, then the places below its children. -/
def placesBelow (above : List Node) : Node → List Place
  | mk i cs => ⟨mk i cs, above⟩ :: placesAmong (mk i cs :: above) cs

/-- The places of several trees, one tree after the other. -/
def placesAmong (above : List Node) : List Node → List Place
  | [] => []
  | c :: cs => placesBelow above c ++ placesAmong above cs
end

/-- The places of a tree, in the order of the text. -/
def places (root : Node) : List Place := root.placesBelow []

theorem placesBelow_eq (above : List Node) (n : Node) :
    n.placesBelow above = ⟨n, above⟩ :: placesAmong (n :: above) n.children := by
  cases n with
  | mk i cs => rw [placesBelow, children]

theorem mem_placesAmong {above cs : List Node} {p : Place} :
    p ∈ placesAmong above cs ↔ ∃ c ∈ cs, p ∈ placesBelow above c := by
  induction cs with
  | nil => simp [placesAmong]
  | cons c cs ih => simp [placesAmong, ih]

theorem mem_placesBelow_self (above : List Node) (n : Node) :
    (⟨n, above⟩ : Place) ∈ n.placesBelow above := by
  rw [placesBelow_eq]
  exact List.mem_cons_self

theorem mem_placesBelow_of_child {above : List Node} {n c : Node} (hc : c ∈ n.children)
    {p : Place} (hp : p ∈ c.placesBelow (n :: above)) : p ∈ n.placesBelow above := by
  rw [placesBelow_eq]
  exact List.mem_cons_of_mem _ (mem_placesAmong.mpr ⟨c, hc, hp⟩)

/-- A place is the root's, or lies below a child of the root. -/
theorem eq_or_below_child {above : List Node} {n : Node} {p : Place}
    (hp : p ∈ n.placesBelow above) :
    p = ⟨n, above⟩ ∨ ∃ c ∈ n.children, p ∈ c.placesBelow (n :: above) := by
  rw [placesBelow_eq, List.mem_cons] at hp
  rcases hp with rfl | hp
  · exact Or.inl rfl
  · exact Or.inr (mem_placesAmong.mp hp)

/-- The children of a place are places. -/
theorem child_mem_placesBelow (n : Node) : ∀ {above : List Node} {p : Place},
    p ∈ n.placesBelow above → ∀ {c : Node}, c ∈ p.node.children →
      (⟨c, p.node :: p.above⟩ : Place) ∈ n.placesBelow above := by
  induction n using induct with
  | mk i cs ih =>
      intro above p hp c hc
      rcases eq_or_below_child hp with rfl | ⟨d, hd, hbelow⟩
      · exact mem_placesBelow_of_child hc (mem_placesBelow_self _ c)
      · exact mem_placesBelow_of_child hd (ih d hd hbelow hc)

theorem child_mem_places {root : Node} {p : Place} (hp : p ∈ root.places) {c : Node}
    (hc : c ∈ p.node.children) : (⟨c, p.node :: p.above⟩ : Place) ∈ root.places :=
  child_mem_placesBelow root hp hc

/-- A place is the root's, or that of a child of another place. -/
theorem eq_or_child_of_place (n : Node) : ∀ {above : List Node} {p : Place},
    p ∈ n.placesBelow above → p = ⟨n, above⟩ ∨ ∃ q ∈ n.placesBelow above,
      p.above = q.node :: q.above ∧ p.node ∈ q.node.children := by
  induction n using induct with
  | mk i cs ih =>
      intro above p hp
      rcases eq_or_below_child hp with rfl | ⟨d, hd, hbelow⟩
      · exact Or.inl rfl
      · rcases ih d hd hbelow with rfl | ⟨q, hq, hrest⟩
        · exact Or.inr ⟨⟨.mk i cs, above⟩, mem_placesBelow_self _ _, rfl, hd⟩
        · exact Or.inr ⟨q, mem_placesBelow_of_child hd hq, hrest⟩

/-- The nodes above a place are places themselves, and the place lies below them. -/
theorem exists_place_of_mem_above (n : Node) : ∀ {above : List Node} {p : Place},
    p ∈ n.placesBelow above → ∀ {a : Node}, a ∈ p.above →
      a ∈ above ∨ ∃ aboveA, (⟨a, aboveA⟩ : Place) ∈ n.placesBelow above ∧
        p ∈ a.placesBelow aboveA := by
  induction n using induct with
  | mk i cs ih =>
      intro above p hp a ha
      rcases eq_or_below_child hp with rfl | ⟨d, hd, hbelow⟩
      · exact Or.inl ha
      · rcases ih d hd hbelow ha with hmem | ⟨aboveA, hplace, hin⟩
        · rcases List.mem_cons.mp hmem with rfl | hmem
          · exact Or.inr ⟨above, mem_placesBelow_self _ _, hp⟩
          · exact Or.inl hmem
        · exact Or.inr ⟨aboveA, mem_placesBelow_of_child hd hplace, hin⟩

end Node

namespace Preorder

/-- What is left of a walk below the frames of a list of siblings: the siblings' places, then the
rest of the walk.  Each sibling is walked over completely by hypothesis. -/
theorem take_siblings {parent : Node} {frames : List Frame} {cs : List Node}
    (hcs : ∀ c ∈ cs, ∀ (frames : List Frame) (count : Nat),
      ((⟨some ⟨c, frames⟩⟩ : Preorder).take (c.size + count)).map Cursor.place =
        c.placesBelow (frames.map Frame.parent) ++
          ((⟨Cursor.climb? frames⟩ : Preorder).take count).map Cursor.place) (count : Nat) :
    ((⟨Cursor.climb? (⟨parent, cs⟩ :: frames)⟩ : Preorder).take
        (Node.sizeAll cs + count)).map Cursor.place =
      Node.placesAmong (parent :: frames.map Frame.parent) cs ++
        ((⟨Cursor.climb? frames⟩ : Preorder).take count).map Cursor.place := by
  induction cs with
  | nil => simp [Node.sizeAll, Node.placesAmong, Cursor.climb?]
  | cons c cs ih =>
      have hhead := hcs c List.mem_cons_self (⟨parent, cs⟩ :: frames) (Node.sizeAll cs + count)
      have htail := ih fun d hd => hcs d (List.mem_cons_of_mem c hd)
      rw [Cursor.climb?, Node.sizeAll, Nat.add_assoc, hhead, htail, Node.placesAmong,
        List.append_assoc, List.map_cons]

/-- A walk that has as many steps as a tree has nodes visits the places of the tree, and goes on
behind it. -/
theorem take_size_add (n : Node) : ∀ (frames : List Frame) (count : Nat),
    ((⟨some ⟨n, frames⟩⟩ : Preorder).take (n.size + count)).map Cursor.place =
      n.placesBelow (frames.map Frame.parent) ++
        ((⟨Cursor.climb? frames⟩ : Preorder).take count).map Cursor.place := by
  induction n using Node.induct with
  | mk i cs ih =>
      intro frames count
      have hsize : (Node.mk i cs).size + count = (Node.sizeAll cs + count) + 1 := by
        rw [Node.size]
        omega
      -- The first child is the first sibling below a frame that holds all children.
      have hadvance : (⟨Node.mk i cs, frames⟩ : Cursor).advance? =
          Cursor.climb? (⟨Node.mk i cs, cs⟩ :: frames) := by
        cases cs with
        | nil => rfl
        | cons c cs => rfl
      rw [hsize, take, next, List.map_cons, hadvance, take_siblings ih count, Node.placesBelow]
      rfl

end Preorder

/-- The walk over a tree visits its places in their order. -/
theorem map_place_walk (root : Node) : root.walk.map Cursor.place = root.places := by
  have hwalk := Preorder.take_size_add root [] 0
  simpa [Node.walk, Preorder.start, Node.places, Cursor.climb?, Preorder.take, Preorder.next]
    using hwalk

end PubSweep.Syntax
