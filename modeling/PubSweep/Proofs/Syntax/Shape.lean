import PubSweep.Identity
import PubSweep.Proofs.Syntax.Places
import PubSweep.Proofs.Text.Cut
import PubSweep.Syntax.Tree

/-!
Well-formed trees, and parsers that make them.

In a well-formed tree an earlier place is above a later one or ends before it (`pairwise_places`),
and the way to a leaf that is not empty is found by its span alone (`Tokenized.covering_leaf`).
-/

namespace PubSweep.Syntax

namespace Node

/-- What holds of the tree of a text without faults. -/
structure Shaped (text : List Char) (root : Node) : Prop where
  /-- A child lies inside its parent. -/
  inside : ∀ p ∈ root.places, ∀ c ∈ p.node.children,
    p.node.span.start ≤ c.span.start ∧ c.span.stop ≤ p.node.span.stop
  /-- Children follow one another and share no byte. -/
  ordered : ∀ p ∈ root.places,
    p.node.children.Pairwise fun a b => a.span.stop ≤ b.span.start
  /-- A node starts and ends between two characters. -/
  boundary : ∀ p ∈ root.places,
    Text.isBoundary p.node.span.start text = true ∧ Text.isBoundary p.node.span.stop text = true
  /-- Offsets have 32 bits. -/
  narrow : ∀ p ∈ root.places, p.node.span.stop < SyntaxTree.offsetModulus
  /-- The keyword of an item is a token that covers some text. -/
  keyword : ∀ p ∈ root.places, ∀ kind : ItemKind, p.node.isNamed = false →
    p.node.kind = kind.keyword → p.node.children = [] ∧ p.node.span.start < p.node.span.stop
  /-- A list of declarations starts with its brace. -/
  brace : ∀ p ∈ root.places, p.node.kind = "declaration_list" →
    ∃ b cs, p.node.children = b :: cs ∧ b.kind = "\x7b" ∧ b.span.start < b.span.stop
  /-- Only the whole text is a file. -/
  file : ∀ p ∈ root.places, p.node.kind = "source_file" → p.above = []

end Node

/-- A parser that marks the texts with faults, and makes well-formed trees of all others. -/
structure Parser.WellFormed (parser : Parser) : Prop where
  hasErrors_iff : ∀ text, (parser.parse text).hasErrors = true ↔
    ∃ p ∈ (parser.parse text).root.places, p.node.isFault = true
  shaped : ∀ text, (parser.parse text).hasErrors = false →
    (parser.parse text).root.Shaped text.toList

namespace Node

/-- Children lie in their parents and follow one another, in all of a tree below some nodes. -/
def Nested (above : List Node) (n : Node) : Prop :=
  ∀ p ∈ n.placesBelow above,
    (∀ c ∈ p.node.children, p.node.span.start ≤ c.span.start ∧ c.span.stop ≤ p.node.span.stop) ∧
      p.node.children.Pairwise fun a b => a.span.stop ≤ b.span.start

theorem Shaped.nested {text : List Char} {root : Node} (h : root.Shaped text) : root.Nested [] :=
  fun p hp => ⟨h.inside p hp, h.ordered p hp⟩

theorem Nested.child {above : List Node} {n c : Node} (h : n.Nested above)
    (hc : c ∈ n.children) : c.Nested (n :: above) :=
  fun p hp => h p (mem_placesBelow_of_child hc hp)

theorem Nested.at_place {above : List Node} {n : Node} (h : n.Nested above) {p : Place}
    (hp : p ∈ n.placesBelow above) : p.node.Nested p.above := by
  induction n using induct generalizing above with
  | mk i cs ih =>
      rcases eq_or_below_child hp with rfl | ⟨d, hd, hbelow⟩
      · exact h
      · exact ih d hd (h.child hd) hbelow

/-- All of a tree lies inside its root. -/
theorem Nested.inside_root {above : List Node} {n : Node} (h : n.Nested above) {p : Place}
    (hp : p ∈ n.placesBelow above) :
    n.span.start ≤ p.node.span.start ∧ p.node.span.stop ≤ n.span.stop := by
  induction n using induct generalizing above with
  | mk i cs ih =>
      rcases eq_or_below_child hp with rfl | ⟨d, hd, hbelow⟩
      · exact ⟨Nat.le_refl _, Nat.le_refl _⟩
      · have hchild := (h _ (mem_placesBelow_self above _)).1 d hd
        have hdeep := ih d hd (h.child hd) hbelow
        exact ⟨Nat.le_trans hchild.1 hdeep.1, Nat.le_trans hdeep.2 hchild.2⟩

/-- Of two places in the order of the text, the first is above the second or ends before it. -/
def Precedes (p q : Place) : Prop := p.node ∈ q.above ∨ p.node.span.stop ≤ q.node.span.start

theorem mem_above_of_mem_placesAmong {above cs : List Node} {n : Node} {p : Place}
    (hp : p ∈ placesAmong (n :: above) cs) : n ∈ p.above := by
  obtain ⟨c, -, hp⟩ := mem_placesAmong.mp hp
  suffices h : ∀ above, p ∈ c.placesBelow above → above ⊆ p.above from
    h _ hp List.mem_cons_self
  clear hp
  induction c using induct with
  | mk i cs ih =>
      intro above hp
      rcases eq_or_below_child hp with rfl | ⟨d, hd, hbelow⟩
      · exact List.Subset.refl _
      · intro a ha
        exact ih d hd _ hbelow (List.mem_cons_of_mem _ ha)

/-- The places below siblings that follow one another are in order if those below each are. -/
theorem pairwise_placesAmong {above cs : List Node}
    (hordered : cs.Pairwise fun a b => a.span.stop ≤ b.span.start)
    (hnested : ∀ c ∈ cs, c.Nested above)
    (hcs : ∀ c ∈ cs, (c.placesBelow above).Pairwise Precedes) :
    (placesAmong above cs).Pairwise Precedes := by
  induction cs with
  | nil => simp [placesAmong]
  | cons c cs ih =>
      rw [List.pairwise_cons] at hordered
      rw [placesAmong, List.pairwise_append]
      refine ⟨hcs c List.mem_cons_self, ?_, ?_⟩
      · exact ih hordered.2 (fun d hd => hnested d (List.mem_cons_of_mem c hd))
          (fun d hd => hcs d (List.mem_cons_of_mem c hd))
      · intro p hp q hq
        obtain ⟨d, hd, hq⟩ := mem_placesAmong.mp hq
        have hpc := (hnested c List.mem_cons_self).inside_root hp
        have hqd := (hnested d (List.mem_cons_of_mem c hd)).inside_root hq
        have hcd := hordered.1 d hd
        exact Or.inr (Nat.le_trans hpc.2 (Nat.le_trans hcd hqd.1))

theorem Nested.pairwise_placesBelow {above : List Node} {n : Node} (h : n.Nested above) :
    (n.placesBelow above).Pairwise Precedes := by
  induction n using induct generalizing above with
  | mk i cs ih =>
      have hroot := h _ (mem_placesBelow_self above _)
      rw [placesBelow, List.pairwise_cons]
      constructor
      · intro p hp
        exact Or.inl (mem_above_of_mem_placesAmong hp)
      · exact pairwise_placesAmong hroot.2 (fun c hc => h.child hc)
          (fun c hc => ih c hc (h.child hc))

/-- In a well-formed tree an earlier place is above a later one or ends before it. -/
theorem Shaped.pairwise_places {text : List Char} {root : Node} (h : root.Shaped text) :
    root.places.Pairwise Precedes :=
  h.nested.pairwise_placesBelow

/-- A node starts no later than what lies below it. -/
theorem Shaped.start_le_of_mem_above {text : List Char} {root : Node} (h : root.Shaped text)
    {p : Place} (hp : p ∈ root.places) {a : Node} (ha : a ∈ p.above) :
    a.span.start ≤ p.node.span.start := by
  rcases exists_place_of_mem_above root hp ha with hnil | ⟨aboveA, hplace, hbelow⟩
  · cases hnil
  · exact ((h.nested.at_place hplace).inside_root hbelow).1

/-- The search skips children that end before a range, and goes into one around it. -/
theorem pathToAmong_eq {range : Span} {path before after : List Node} {c : Node}
    (hbefore : ∀ b ∈ before, b.span.stop ≤ range.start) (hstart : c.span.start ≤ range.start)
    (hstop : range.stop ≤ c.span.stop) (hrange : range.start < range.stop) :
    pathToAmong range path (before ++ c :: after) = pathTo range path c := by
  induction before with
  | nil =>
      have hreach : ¬ (c.span.stop < range.stop ∨ c.span.stop ≤ range.start) := by omega
      have hbegin : ¬ range.start < c.span.start := by omega
      simp [pathToAmong, hreach, hbegin]
  | cons b before ih =>
      have hskip := hbefore b List.mem_cons_self
      rw [List.cons_append, pathToAmong, if_pos (by simp [hskip])]
      exact ih fun d hd => hbefore d (List.mem_cons_of_mem b hd)

/-- The way to the span of a leaf that is not empty is the way to the leaf. -/
theorem Nested.pathTo_leaf {above : List Node} {n : Node} (h : n.Nested above) {p : Place}
    (hp : p ∈ n.placesBelow above) (hleaf : p.node.children = [])
    (hspan : p.node.span.start < p.node.span.stop) :
    n.pathTo p.node.span above = p.node :: p.above := by
  induction n using induct generalizing above with
  | mk i cs ih =>
      rcases eq_or_below_child hp with rfl | ⟨d, hd, hbelow⟩
      · have hnil : cs = [] := hleaf
        subst hnil
        rw [pathTo, pathToAmong]
      · have hroot := h _ (mem_placesBelow_self above _)
        have hd' : d ∈ cs := hd
        obtain ⟨before, after, rfl⟩ := List.append_of_mem hd'
        have hordered := (List.pairwise_append.mp hroot.2).2.2
        have hin := (h.child hd).inside_root hbelow
        rw [pathTo, pathToAmong_eq ?_ hin.1 hin.2 hspan]
        · exact ih d hd (h.child hd) hbelow
        · intro b hb
          exact Nat.le_trans (hordered b hb d List.mem_cons_self) hin.1

end Node

namespace SyntaxTree

/-- What is asked of a tree so that a keyword can be found by its span. -/
structure Tokenized (t : SyntaxTree) : Prop where
  /-- Children lie in their parents, follow one another and share no byte. -/
  nested : t.root.Nested []
  /-- The keyword of an item is a token that covers some text. -/
  keyword : ∀ p ∈ t.root.places, ∀ kind : ItemKind, p.node.isNamed = false →
    p.node.kind = kind.keyword → p.node.children = [] ∧ p.node.span.start < p.node.span.stop
  /-- The tree lies in its text. -/
  within : t.root.span.stop ≤ t.length
  /-- Offsets have 32 bits. -/
  narrow : t.root.span.stop < offsetModulus

theorem tokenized_of_shaped {t : SyntaxTree} (h : t.root.Shaped t.text.toList) : t.Tokenized where
  nested := h.nested
  keyword := h.keyword
  within := Text.le_byteLength_of_isBoundary (h.boundary _ (Node.mem_placesBelow_self [] _)).2
  narrow := h.narrow _ (Node.mem_placesBelow_self [] _)

/-- Around the span of a leaf that is not empty are the leaf and the nodes above it. -/
theorem Tokenized.covering_leaf {t : SyntaxTree} (h : t.Tokenized) {p : Place}
    (hp : p ∈ t.root.places) (hleaf : p.node.children = [])
    (hspan : p.node.span.start < p.node.span.stop) :
    t.covering p.node.span = p.node :: p.above := by
  have hinside := (h.nested.inside_root hp).2
  have hlength : ¬ t.length < p.node.span.stop :=
    Nat.not_lt.mpr (Nat.le_trans hinside h.within)
  have hnarrow := Nat.lt_of_le_of_lt hinside h.narrow
  have hrange : (⟨p.node.span.start % offsetModulus, p.node.span.stop % offsetModulus⟩ : Span) =
      p.node.span := by
    rw [Nat.mod_eq_of_lt hnarrow, Nat.mod_eq_of_lt (Nat.lt_trans hspan hnarrow)]
  rw [covering, if_neg hlength, hrange]
  exact h.nested.pathTo_leaf hp hleaf hspan

/-- A tree that a well-formed parser has marked has a first fault. -/
theorem exists_firstError {parser : Parser} (hparser : parser.WellFormed) {text : String}
    (h : (parser.tree text).hasErrors = true) :
    ∃ position, (parser.tree text).firstError = some position := by
  obtain ⟨p, hp, hfault⟩ := (hparser.hasErrors_iff text).mp h
  have hwalk : p ∈ (parser.tree text).walk.map Cursor.place := by
    rw [walk, map_place_walk]
    exact hp
  obtain ⟨c, hc, rfl⟩ := List.mem_map.mp hwalk
  have hfound : ((parser.tree text).walk.find? (·.node.isFault)).isSome = true :=
    List.find?_isSome.mpr ⟨c, hc, hfault⟩
  obtain ⟨found, hfound⟩ := Option.isSome_iff_exists.mp hfound
  exact ⟨_, by rw [firstError, if_pos h, hfound]; rfl⟩

theorem firstError_eq_none {t : SyntaxTree} (h : t.hasErrors = false) : t.firstError = none := by
  simp [firstError, h]

end SyntaxTree

end PubSweep.Syntax
