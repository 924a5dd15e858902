import PubSweep.Proofs.Text.Insertion
import PubSweep.Proofs.Visibility.Offenders

/-!
Trees whose items have been given a visibility.

`publish` is what a parser is expected to make of a text in which a visibility was put in front of
some items.  The main statement is `anchors_publish`: the items that lack a visibility afterwards
are the others, at their old offsets moved by the tokens before them.
-/

namespace PubSweep.Visibility

open Syntax

/-- An item without a visibility that starts at a marked offset. -/
def Chosen (marks : List Nat) (p : Place) : Prop :=
  Offends ItemKind.all p ∧ p.node.span.start ∈ marks

instance (marks : List Nat) : DecidablePred (Chosen marks) :=
  fun _ => inferInstanceAs (Decidable (_ ∧ _))

/-- The starts of the chosen items among some nodes, each of which stands below the next. -/
def chosenStarts (marks : List Nat) : List Node → List Nat
  | [] => []
  | n :: above =>
    if Chosen marks ⟨n, above⟩ then n.span.start :: chosenStarts marks above
    else chosenStarts marks above

/-- The token of a fix and the blank behind it. -/
def insertion (fix : FixId) : List Char := (fix.token ++ " ").toList

/-- A text with the token of a fix put in at some offsets. -/
def withVisibility (fix : FixId) (marks : List Nat) (text : String) : String :=
  String.ofList (Text.insertAt marks (insertion fix) 0 text.toList)

/-- Where an offset of a node goes: it moves by the length of the token for every token that is
put in before it, at a smaller offset or in front of a chosen item around the node. -/
def movedOffset (fix : FixId) (marks : List Nat) (above : List Node) (offset : Nat) : Nat :=
  offset + Text.byteLength (insertion fix) *
    marks.countP fun m => m < offset || (chosenStarts marks above).contains m

/-- A token of a tree. -/
def tokenNode (kind : String) (isNamed : Bool) (start stop : Nat) : Node :=
  .mk { kind, isNamed, span := ⟨start, stop⟩ } []

/-- The visibility that a fix puts in at an offset. -/
def modifier (start : Nat) : FixId → Node
  | .makePub =>
    .mk { kind := "visibility_modifier", isNamed := true, span := ⟨start, start + 3⟩ }
      [tokenNode "pub" false start (start + 3)]
  | .makePubCrate =>
    .mk { kind := "visibility_modifier", isNamed := true, span := ⟨start, start + 10⟩ }
      [tokenNode "pub" false start (start + 3), tokenNode "(" false (start + 3) (start + 4),
        tokenNode "crate" true (start + 4) (start + 9), tokenNode ")" false (start + 9) (start + 10)]

/-- A span of a node below some nodes, moved by the tokens before its ends. -/
def movedSpan (fix : FixId) (marks : List Nat) (above : List Node) (span : Span) : Span :=
  ⟨movedOffset fix marks above span.start, movedOffset fix marks above span.stop⟩

mutual
/-- The tree with the visibility of a fix given to the chosen items: all spans are moved, and each
chosen item has its visibility as its first child. -/
def publish (fix : FixId) (marks : List Nat) (above : List Node) : Node → Node
  | .mk i cs =>
    let info := { i with span := movedSpan fix marks above i.span }
    let children := publishAll fix marks (.mk i cs :: above) cs
    if Chosen marks ⟨.mk i cs, above⟩ then .mk info (modifier info.span.start fix :: children)
    else .mk info children

/-- The same for several trees. -/
def publishAll (fix : FixId) (marks : List Nat) (above : List Node) : List Node → List Node
  | [] => []
  | c :: cs => publish fix marks above c :: publishAll fix marks above cs
end

/-- A parser that reads a visibility put in front of some items that lack one as the visibility of
these items, and all else as before. -/
def ReadsVisibility (parser : Parser) : Prop :=
  ∀ (text : String) (fix : FixId) (marks : List Nat), (parser.parse text).hasErrors = false →
    marks.Sublist (anchors ItemKind.all (parser.parse text).root) →
      parser.parse (withVisibility fix marks text) =
        ⟨publish fix marks [] (parser.parse text).root, false⟩

variable {fix : FixId} {marks : List Nat} {kinds : List ItemKind}

@[simp] theorem withVisibility_nil (fix : FixId) (text : String) :
    withVisibility fix [] text = text := by
  rw [withVisibility, Text.insertAt_nil, String.ofList_toList]

theorem publishAll_eq_map (above cs : List Node) :
    publishAll fix marks above cs = cs.map (publish fix marks above) := by
  induction cs with
  | nil => rfl
  | cons c cs ih => rw [publishAll, ih, List.map_cons]

theorem info_publish (above : List Node) (n : Node) :
    (publish fix marks above n).info =
      { n.info with span := movedSpan fix marks above n.span } := by
  cases n with
  | mk i cs =>
      rw [publish]
      split <;> rfl

@[simp] theorem kind_publish (above : List Node) (n : Node) :
    (publish fix marks above n).kind = n.kind := by
  rw [Node.kind, info_publish]
  rfl

@[simp] theorem isNamed_publish (above : List Node) (n : Node) :
    (publish fix marks above n).isNamed = n.isNamed := by
  rw [Node.isNamed, info_publish]
  rfl

@[simp] theorem span_publish (above : List Node) (n : Node) :
    (publish fix marks above n).span = movedSpan fix marks above n.span := by
  rw [Node.span, info_publish]

theorem children_publish (above : List Node) (n : Node) :
    (publish fix marks above n).children =
      (if Chosen marks ⟨n, above⟩ then
        [modifier (movedOffset fix marks above n.span.start) fix] else []) ++
        n.children.map (publish fix marks (n :: above)) := by
  cases n with
  | mk i cs =>
      rw [publish, publishAll_eq_map]
      split
      · rfl
      · rfl

/-- Whether something stands in a module depends on the kinds of the nodes above only. -/
theorem inModule_congr {above above' : List Node}
    (h : above'.map Node.kind = above.map Node.kind) : InModule above' ↔ InModule above := by
  match above, above' with
  | [], [] => rfl
  | [], _ :: _ => simp at h
  | _ :: _, [] => simp at h
  | [a], [b] =>
      simp only [List.map_cons, List.map_nil, List.cons.injEq, and_true] at h
      simp [InModule, h]
  | [_], _ :: _ :: _ => simp at h
  | _ :: _ :: _, [_] => simp at h
  | a :: c :: above, b :: d :: above' =>
      simp only [List.map_cons, List.cons.injEq] at h
      simp [InModule, h.1, h.2.1]

/-- An item lacks a visibility afterwards if it lacked one before and was not chosen. -/
theorem offends_publish_iff {above above' : List Node} (n : Node)
    (h : above'.map Node.kind = above.map Node.kind) :
    Offends kinds ⟨publish fix marks above n, above'⟩ ↔
      Offends kinds ⟨n, above⟩ ∧ n.span.start ∉ marks := by
  have hmodifier : ∀ start, (modifier start fix).kind = "visibility_modifier" ∧
      (modifier start fix).isNamed = true := by
    intro start
    cases fix <;> exact ⟨rfl, rfl⟩
  constructor
  · rintro ⟨kind, hlisted, hname, ⟨k, hk, hnamed, hkind⟩, hbare, hscope⟩
    have hchosen : ¬ Chosen marks ⟨n, above⟩ := by
      intro hchosen
      refine hbare (modifier (movedOffset fix marks above n.span.start) fix) ?_ (hmodifier _).1
      rw [children_publish, if_pos hchosen]
      exact List.mem_cons_self
    rw [children_publish, if_neg hchosen, List.nil_append] at hk hbare
    obtain ⟨c, hc, rfl⟩ := List.mem_map.mp hk
    have hoff : Offends kinds ⟨n, above⟩ := by
      refine ⟨kind, hlisted, by simpa using hname, ⟨c, hc, by simpa using hnamed,
        by simpa using hkind⟩, ?_, (inModule_congr h).mp hscope⟩
      intro d hd
      simpa using hbare _ (List.mem_map_of_mem hd)
    exact ⟨hoff, fun hmark => hchosen ⟨hoff.all, hmark⟩⟩
  · rintro ⟨⟨kind, hlisted, hname, ⟨c, hc, hnamed, hkind⟩, hbare, hscope⟩, hmark⟩
    have hchildren : (publish fix marks above n).children =
        n.children.map (publish fix marks (n :: above)) := by
      rw [children_publish, if_neg (fun hchosen => hmark hchosen.2), List.nil_append]
    refine ⟨kind, hlisted, by simpa using hname, ⟨publish fix marks (n :: above) c, ?_,
      by simpa using hnamed, by simpa using hkind⟩, ?_, (inModule_congr h).mpr hscope⟩
    · rw [hchildren]
      exact List.mem_map_of_mem hc
    · intro d hd
      rw [hchildren] at hd
      obtain ⟨e, he, rfl⟩ := List.mem_map.mp hd
      simpa using hbare e he

/-- Nothing in a visibility is an item. -/
theorem filter_offends_modifier (above : List Node) (start : Nat) :
    ((modifier start fix).placesBelow above).filter (Offends kinds ·) = [] := by
  have htokens : ∀ p ∈ (modifier start fix).placesBelow above,
      p.node.kind ∈ ["visibility_modifier", "pub", "(", "crate", ")"] := by
    cases fix <;>
      simp [modifier, tokenNode, Node.placesBelow, Node.placesAmong, Node.kind, Node.info]
  rw [List.filter_eq_nil_iff]
  intro p hp hoff
  obtain ⟨kind, -, hname, -⟩ := of_decide_eq_true hoff
  have hitem : kind.nodeKind ∉ ["visibility_modifier", "pub", "(", "crate", ")"] := by
    cases kind <;> decide
  exact hitem (hname ▸ htokens p hp)

/-- The items without a visibility below some siblings, from those below each. -/
theorem starts_publishAll {above above' cs : List Node}
    (hcs : ∀ c ∈ cs, (((publish fix marks above c).placesBelow above').filter
        (Offends kinds ·)).map (·.node.span.start) =
      ((c.placesBelow above).filter fun p => Offends kinds p ∧ p.node.span.start ∉ marks).map
        fun p => movedOffset fix marks p.above p.node.span.start) :
    ((Node.placesAmong above' (cs.map (publish fix marks above))).filter
        (Offends kinds ·)).map (·.node.span.start) =
      ((Node.placesAmong above cs).filter fun p =>
          Offends kinds p ∧ p.node.span.start ∉ marks).map
        fun p => movedOffset fix marks p.above p.node.span.start := by
  induction cs with
  | nil => rfl
  | cons c cs ih =>
      have hhead := hcs c List.mem_cons_self
      have htail := ih fun d hd => hcs d (List.mem_cons_of_mem c hd)
      rw [List.map_cons, Node.placesAmong, Node.placesAmong, List.filter_append,
        List.filter_append, List.map_append, List.map_append, hhead, htail]

/-- The starts of the items that still lack a visibility: they are the old ones, moved. -/
theorem starts_publish (n : Node) : ∀ {above above' : List Node},
    above'.map Node.kind = above.map Node.kind →
    (((publish fix marks above n).placesBelow above').filter (Offends kinds ·)).map
        (·.node.span.start) =
      ((n.placesBelow above).filter fun p => Offends kinds p ∧ p.node.span.start ∉ marks).map
        fun p => movedOffset fix marks p.above p.node.span.start := by
  induction n using Node.induct with
  | mk i cs ih =>
      intro above above' habove
      -- A visibility that was added holds no item, so the children count alone.
      have hadded : (Node.placesAmong (publish fix marks above (.mk i cs) :: above')
          (publish fix marks above (.mk i cs)).children).filter (Offends kinds ·) =
          (Node.placesAmong (publish fix marks above (.mk i cs) :: above')
            (cs.map (publish fix marks (.mk i cs :: above)))).filter (Offends kinds ·) := by
        rw [children_publish]
        split
        · rw [List.singleton_append, Node.placesAmong, List.filter_append,
            filter_offends_modifier, List.nil_append]
          rfl
        · rfl
      have hchildren : ((Node.placesAmong (publish fix marks above (.mk i cs) :: above')
            (cs.map (publish fix marks (.mk i cs :: above)))).filter (Offends kinds ·)).map
              (·.node.span.start) = _ :=
        starts_publishAll fun c hc => ih c hc (by simp [habove])
      rw [Node.placesBelow_eq, Node.placesBelow, List.filter_cons, List.filter_cons, hadded]
      simp only [offends_publish_iff (.mk i cs) habove]
      split
      · rw [List.map_cons, List.map_cons, hchildren, span_publish]
        rfl
      · exact hchildren

theorem mem_chosenStarts {above : List Node} {m : Nat} (h : m ∈ chosenStarts marks above) :
    ∃ a ∈ above, ∃ kind : ItemKind, a.kind = kind.nodeKind ∧ a.span.start = m := by
  induction above with
  | nil => cases h
  | cons n above ih =>
      rw [chosenStarts] at h
      split at h
      case isTrue hchosen =>
        rcases List.mem_cons.mp h with rfl | h
        · obtain ⟨⟨kind, -, hname, -⟩, -⟩ := hchosen
          exact ⟨n, List.mem_cons_self, kind, hname, rfl⟩
        · obtain ⟨a, ha, hrest⟩ := ih h
          exact ⟨a, List.mem_cons_of_mem n ha, hrest⟩
      case isFalse =>
        obtain ⟨a, ha, hrest⟩ := ih h
        exact ⟨a, List.mem_cons_of_mem n ha, hrest⟩

/-- The start of an item without a visibility moves by the marks at smaller offsets only. -/
theorem movedOffset_start {text : List Char} {root : Node} (hshape : root.Shaped text) {p : Place}
    (hp : p ∈ root.places) (h : Offends kinds p) :
    movedOffset fix marks p.above p.node.span.start = p.node.span.start +
      Text.byteLength (insertion fix) * marks.countP (· < p.node.span.start) := by
  have hcount : marks.countP (fun m => decide (m < p.node.span.start) ||
      (chosenStarts marks p.above).contains m) = marks.countP (· < p.node.span.start) := by
    apply List.countP_congr
    intro m _
    simp only [Bool.or_eq_true, decide_eq_true_eq, List.contains_iff_mem, or_iff_left_iff_imp]
    intro hm
    obtain ⟨a, ha, kind, hkind, rfl⟩ := mem_chosenStarts hm
    exact h.start_lt_of_mem_above hshape hp ha hkind
  rw [movedOffset, hcount]

/-- The items that lack a visibility afterwards are those that were not marked, each moved by the
tokens before it. -/
theorem anchors_publish (kinds : List ItemKind) (fix : FixId) (marks : List Nat)
    {text : List Char} {root : Node} (hshape : root.Shaped text) :
    anchors kinds (publish fix marks [] root) =
      ((anchors kinds root).filter (· ∉ marks)).map fun offset =>
        offset + Text.byteLength (insertion fix) * marks.countP (· < offset) := by
  have hstarts : anchors kinds (publish fix marks [] root) =
      (root.places.filter fun p => Offends kinds p ∧ p.node.span.start ∉ marks).map
        fun p => movedOffset fix marks p.above p.node.span.start :=
    starts_publish root rfl
  rw [hstarts, anchors, offenders, List.filter_map, List.filter_filter, List.map_map]
  have hsame : (root.places.filter fun p => Offends kinds p ∧ p.node.span.start ∉ marks) =
      root.places.filter fun p =>
        ((fun offset => decide (offset ∉ marks)) ∘ (·.node.span.start)) p &&
          decide (Offends kinds p) := by
    apply List.filter_congr
    intro p _
    simp [Bool.and_comm]
  rw [hsame]
  apply List.map_congr_left
  intro p hp
  rw [List.mem_filter, Bool.and_eq_true, decide_eq_true_eq] at hp
  exact movedOffset_start hshape hp.1 hp.2.2

/-- Without marks the tree stays as it is. -/
theorem publish_nil (fix : FixId) (above : List Node) (n : Node) :
    publish fix [] above n = n := by
  induction n using Node.induct generalizing above with
  | mk i cs ih =>
      have hchildren : publishAll fix [] (.mk i cs :: above) cs = cs := by
        rw [publishAll_eq_map, List.map_congr_left (g := id) fun c hc => ih c hc _, List.map_id]
      have hspan : movedSpan fix [] above i.span = i.span := by
        simp [movedSpan, movedOffset]
      have hbare : ¬ Chosen [] ⟨.mk i cs, above⟩ := by
        rintro ⟨-, hmark⟩
        cases hmark
      rw [publish, hchildren, hspan, if_neg hbare]

end PubSweep.Visibility
