import PubSweep.Proofs.Parsing.Run
import PubSweep.Proofs.Syntax.Shape
import PubSweep.Syntax.Rust

/-!
The trees that a table makes of texts.

Subtrees that are not shown leave their place to their parts.  What is shown keeps its order, and so
the nodes of a parse lie inside one another, one behind the other, and between two characters
(`Parser.ofTable_fits`).  What else a well-formed tree needs is a matter of the names in the table
(`Parser.shaped_ofTable_iff`).
-/

namespace PubSweep.Parsing

/-! ### Texts -/

namespace Source

/-- Laying out the characters one after the other. -/
theorem foldl_offsets (cs : List Char) (acc : Array Nat × Array Nat × Nat × Nat) :
    let laid := cs.foldl
      (fun ((offsets, rows, bytes, row) : Array Nat × Array Nat × Nat × Nat) c =>
        (offsets.push bytes, rows.push row, bytes + c.utf8Size, if c == '\n' then row + 1 else row))
      acc
    laid.1.toList = acc.1.toList ++
        (List.range cs.length).map (fun i => acc.2.2.1 + Text.byteLength (cs.take i)) ∧
      laid.2.2.1 = acc.2.2.1 + Text.byteLength cs := by
  induction cs generalizing acc with
  | nil => simp
  | cons c cs ih =>
      obtain ⟨hoffsets, hbytes⟩ := ih (acc.1.push acc.2.2.1, acc.2.1.push acc.2.2.2,
        acc.2.2.1 + c.utf8Size, if c == '\n' then acc.2.2.2 + 1 else acc.2.2.2)
      refine ⟨hoffsets.trans ?_, hbytes.trans ?_⟩
      · simp [List.range_succ_eq_map, Nat.add_assoc, Function.comp_def]
      · simp [Nat.add_assoc]

variable (text : String)

theorem size_ofString : (ofString text).size = text.toList.length := by
  simp [ofString, size]

theorem size_classes_ofString : (ofString text).classes.size = (ofString text).size := by
  simp [ofString, size]

theorem offsets_ofString : (ofString text).offsets.toList =
    (List.range (text.toList.length + 1)).map fun i => Text.byteLength (text.toList.take i) := by
  obtain ⟨hoffsets, hbytes⟩ := foldl_offsets text.toList (#[], #[], 0, 0)
  simp only [List.nil_append, Nat.zero_add] at hoffsets hbytes
  rw [ofString, ← Array.foldl_toList, Array.toList_push, hoffsets, hbytes, List.range_succ,
    List.map_append]
  simp

/-- The offset of a character is the length of the text before it. -/
theorem offset_ofString {i : Nat} (hi : i ≤ (ofString text).size) :
    (ofString text).offset i = Text.byteLength (text.toList.take i) := by
  rw [size_ofString] at hi
  rw [offset, Array.getD_eq_getD_getElem?, ← Array.getElem?_toList, offsets_ofString,
    List.getElem?_map, List.getElem?_range (Nat.lt_succ_of_le hi)]
  rfl

theorem isBoundary_offset {i : Nat} (hi : i ≤ (ofString text).size) :
    Text.isBoundary ((ofString text).offset i) text.toList = true := by
  rw [offset_ofString text hi]
  exact Text.isBoundary_iff.mpr ⟨_, _, (List.take_append_drop i text.toList).symm, rfl⟩

theorem offset_mono {i j : Nat} (hij : i ≤ j) (hj : j ≤ (ofString text).size) :
    (ofString text).offset i ≤ (ofString text).offset j := by
  rw [offset_ofString text hj, offset_ofString text (Nat.le_trans hij hj)]
  obtain ⟨between, hbetween⟩ := List.take_prefix_take_left hij (l := text.toList)
  rw [← hbetween, Text.byteLength_append]
  exact Nat.le_add_right _ _

end Source

end PubSweep.Parsing

namespace PubSweep.Syntax

open Grammar Parsing

/-! ### Nodes -/

namespace Node

/-- Nodes that lie inside one another, one behind the other, and between two characters. -/
structure Fits (text : List Char) (above : List Node) (n : Node) : Prop where
  nested : n.Nested above
  boundary : ∀ p ∈ n.placesBelow above,
    Text.isBoundary p.node.span.start text = true ∧ Text.isBoundary p.node.span.stop text = true

/-- A node fits if all its children do, and lie inside it, one behind the other. -/
theorem fits_of_children {text : List Char} {above : List Node} {n : Node}
    (hboundary : Text.isBoundary n.span.start text = true ∧ Text.isBoundary n.span.stop text = true)
    (hinside : ∀ c ∈ n.children, n.span.start ≤ c.span.start ∧ c.span.stop ≤ n.span.stop)
    (hordered : n.children.Pairwise fun a b => a.span.stop ≤ b.span.start)
    (hchildren : ∀ c ∈ n.children, c.Fits text (n :: above)) : n.Fits text above := by
  constructor
  · intro p hp
    rcases eq_or_below_child hp with rfl | ⟨c, hc, hbelow⟩
    · exact ⟨hinside, hordered⟩
    · exact (hchildren c hc).nested p hbelow
  · intro p hp
    rcases eq_or_below_child hp with rfl | ⟨c, hc, hbelow⟩
    · exact hboundary
    · exact (hchildren c hc).boundary p hbelow

/-- Nodes that fit, one behind the other, and lie between two offsets. -/
structure Laid (text : List Char) (start stop : Nat) (ns : List Node) : Prop where
  within : ∀ n ∈ ns, start ≤ n.span.start ∧ n.span.stop ≤ stop
  ordered : ns.Pairwise fun a b => a.span.stop ≤ b.span.start
  fits : ∀ n ∈ ns, ∀ above, n.Fits text above

section

variable {text : List Char} {a b c d : Nat} {ns ms : List Node}

theorem laid_nil (text : List Char) (a b : Nat) : Laid text a b [] :=
  ⟨nofun, .nil, nofun⟩

theorem Laid.mono (h : Laid text b c ns) (hab : a ≤ b) (hcd : c ≤ d) : Laid text a d ns where
  within n hn := ⟨Nat.le_trans hab (h.within n hn).1, Nat.le_trans (h.within n hn).2 hcd⟩
  ordered := h.ordered
  fits := h.fits

theorem Laid.append (h : Laid text a b ns) (h' : Laid text b c ms) (hab : a ≤ b) (hbc : b ≤ c) :
    Laid text a c (ns ++ ms) where
  within n hn := by
    rcases List.mem_append.mp hn with hn | hn
    · exact (h.mono (Nat.le_refl a) hbc).within n hn
    · exact (h'.mono hab (Nat.le_refl c)).within n hn
  ordered := by
    refine List.pairwise_append.mpr ⟨h.ordered, h'.ordered, ?_⟩
    intro n hn m hm
    exact Nat.le_trans (h.within n hn).2 (h'.within m hm).1
  fits n hn := by
    rcases List.mem_append.mp hn with hn | hn
    · exact h.fits n hn
    · exact h'.fits n hn

end

end Node

/-! ### The nodes of subtrees -/

section

open Node Subtree

variable {table : Table} {source : Source} {text : String}

/-- What is shown of some subtrees comes in front of the rest. -/
theorem nodesOf_append (parent : SubtreeInfo) (outer : Option String) (place : Nat)
    (cs : List Subtree) (rest : List Node) :
    nodesOf table source parent outer place cs rest =
      nodesOf table source parent outer place cs [] ++ rest := by
  induction cs using Subtree.induct generalizing parent outer place rest with
  | nil =>
      rw [nodesOf, nodesOf]
      rfl
  | cons i ds cs hparts hlater =>
      rw [nodesOf, nodesOf, hlater]
      generalize (if i.extra then none else parent.labels.getD place none) = label
      generalize (if i.extra then none else outer.or (parent.fields.getD place none)) = field
      split
      · rfl
      · rw [hparts, hparts i field 0 (nodesOf _ _ _ _ _ cs []), List.append_assoc]

theorem span_nodeOf (label : Option Label) (field : Option String) (t : Subtree) :
    (nodeOf table source label field t).span =
      ⟨source.offset t.info.start, source.offset t.info.stop⟩ := by
  cases t
  rw [nodeOf]
  rfl

theorem children_nodeOf (label : Option Label) (field : Option String) (t : Subtree) :
    (nodeOf table source label field t).children =
      nodesOf table source t.info none 0 t.children [] := by
  cases t
  rw [nodeOf]
  rfl

/-- The node of a subtree fits if the nodes of its parts lie inside it. -/
theorem fits_nodeOf_of_parts {t : Subtree} (hstart : t.info.start ≤ t.info.stop)
    (hstop : t.info.stop ≤ (Source.ofString text).size)
    (hparts : Laid text.toList ((Source.ofString text).offset t.info.start)
      ((Source.ofString text).offset t.info.stop)
      (nodesOf table (Source.ofString text) t.info none 0 t.children []))
    (label : Option Label) (field : Option String) (above : List Node) :
    (nodeOf table (Source.ofString text) label field t).Fits text.toList above := by
  rw [← children_nodeOf label field] at hparts
  refine fits_of_children ?_ ?_ hparts.ordered fun c hc => hparts.fits c hc _
  · rw [span_nodeOf]
    dsimp only
    exact ⟨Source.isBoundary_offset text (Nat.le_trans hstart hstop),
      Source.isBoundary_offset text hstop⟩
  · rw [span_nodeOf]
    dsimp only
    exact hparts.within

/-- What is shown of subtrees that follow one another is laid out where they are. -/
theorem nodesOf_laid {cs : List Subtree} (parent : SubtreeInfo) (outer : Option String)
    (place : Nat) {a b : Nat} (hfollow : Follow a cs)
    (hsize : stopOf a cs ≤ (Source.ofString text).size) (hstart : ∀ c ∈ cs, b ≤ c.info.start) :
    Laid text.toList ((Source.ofString text).offset b) ((Source.ofString text).offset (stopOf a cs))
      (nodesOf table (Source.ofString text) parent outer place cs []) := by
  induction cs using Subtree.induct generalizing parent outer place a b with
  | nil =>
      rw [nodesOf]
      exact laid_nil _ _ _
  | cons i ds cs ihparts ihlater =>
      obtain ⟨-, hplaced, hrest⟩ := follow_cons.mp hfollow
      have hordered : i.start ≤ i.stop := hplaced.ordered.2
      have hstop : i.stop ≤ (Source.ofString text).size := Nat.le_trans hrest.le_stopOf hsize
      obtain ⟨hinside, hend⟩ := hplaced.follow_children
      -- the parts lie inside the subtree, whether or not it is shown
      have hparts (outer : Option String) : Laid text.toList ((Source.ofString text).offset i.start)
          ((Source.ofString text).offset i.stop)
          (nodesOf table (Source.ofString text) i outer 0 ds []) :=
        (ihparts i outer 0 hinside (Nat.le_trans hend hstop) fun c hc => hplaced.start_le hc).mono
          (Nat.le_refl _) (Source.offset_mono text hend hstop)
      have hlater (place : Nat) : Laid text.toList ((Source.ofString text).offset i.stop)
          ((Source.ofString text).offset (stopOf i.stop cs))
          (nodesOf table (Source.ofString text) parent outer place cs []) :=
        ihlater parent outer place hrest hsize fun c hc => hrest.start_le hc
      have hbi : b ≤ i.start := hstart _ List.mem_cons_self
      have hb := Source.offset_mono text hbi (Nat.le_trans hordered hstop)
      have hi := Source.offset_mono text hordered hstop
      have hic : i.stop ≤ stopOf i.stop cs := hrest.le_stopOf
      have hc := Source.offset_mono text hic hsize
      rw [nodesOf, stopOf, Subtree.info]
      generalize (if i.extra then none else parent.labels.getD place none) = label
      generalize (if i.extra then none else outer.or (parent.fields.getD place none)) = field
      have hfirst : Laid text.toList ((Source.ofString text).offset i.start)
          ((Source.ofString text).offset i.stop)
          [nodeOf table (Source.ofString text) label field (.mk i ds)] := by
        refine ⟨?_, List.pairwise_singleton _ _, ?_⟩
        · intro n hn
          rw [List.mem_singleton.mp hn, span_nodeOf]
          dsimp only [Subtree.info]
          exact ⟨Nat.le_refl _, Nat.le_refl _⟩
        · intro n hn
          rw [List.mem_singleton.mp hn]
          exact @fits_nodeOf_of_parts table text (.mk i ds) hordered hstop (hparts none) label field
      split
      · exact (hfirst.mono hb (Nat.le_refl _)).append (hlater _) (Nat.le_trans hb hi) hc
      · rw [nodesOf_append]
        exact ((hparts field).mono hb (Nat.le_refl _)).append (hlater _) (Nat.le_trans hb hi) hc

theorem fits_nodeOf {t : Subtree} (hplaced : t.Placed)
    (hstop : t.info.stop ≤ (Source.ofString text).size) (label : Option Label)
    (field : Option String) (above : List Node) :
    (nodeOf table (Source.ofString text) label field t).Fits text.toList above := by
  obtain ⟨hinside, hend⟩ := hplaced.follow_children
  have hparts := @nodesOf_laid table text t.children t.info none 0 t.info.before t.info.start
    hinside (Nat.le_trans hend hstop) fun c hc => hplaced.start_le hc
  exact fits_nodeOf_of_parts hplaced.ordered.2 hstop
    (hparts.mono (Nat.le_refl _) (Source.offset_mono text hend hstop)) label field above

/-- Whatever a table says, the nodes of the tree of a text lie inside one another, one behind the
other, and between two characters. -/
theorem Parser.ofTable_fits (table : Table) (text : String) :
    ((Parser.ofTable table).parse text).root.Fits text.toList [] := by
  have hroot := parseSubtree_isNext table (Source.size_classes_ofString text)
  rw [ofTable, ofParse]
  dsimp only
  generalize parseSubtree table (Source.ofString text) = t at hroot ⊢
  exact fits_nodeOf hroot.placed hroot.stop none none []

/-- The tree of a text whose offsets have 32 bits is well-formed if the names in it are right. -/
theorem Parser.shaped_ofTable_iff (table : Table) {text : String}
    (hshort : Text.byteLength text.toList < SyntaxTree.offsetModulus) :
    let root := ((Parser.ofTable table).parse text).root
    root.Shaped text.toList ↔
      (∀ p ∈ root.places, ∀ kind : ItemKind, p.node.isNamed = false →
        p.node.kind = kind.keyword →
          p.node.children = [] ∧ p.node.span.start < p.node.span.stop) ∧
      (∀ p ∈ root.places, p.node.kind = "declaration_list" →
        ∃ b cs, p.node.children = b :: cs ∧ b.kind = "\x7b" ∧ b.span.start < b.span.stop) ∧
      ∀ p ∈ root.places, p.node.kind = "source_file" → p.above = [] := by
  intro root
  have hfits : root.Fits text.toList [] := Parser.ofTable_fits table text
  constructor
  · exact fun h => ⟨h.keyword, h.brace, h.file⟩
  · rintro ⟨hkeyword, hbrace, hfile⟩
    refine ⟨fun p hp => (hfits.nested p hp).1, fun p hp => (hfits.nested p hp).2, hfits.boundary,
      ?_, hkeyword, hbrace, hfile⟩
    intro p hp
    exact Nat.lt_of_le_of_lt (Text.le_byteLength_of_isBoundary (hfits.boundary p hp).2) hshort

end

end PubSweep.Syntax
