import PubSweep.Proofs.Syntax.Shape
import PubSweep.Visibility.Check

/-!
The items that lack a visibility, said of the tree alone.

The rule finds exactly these items (`isSome_checkAt_iff`).  In a well-formed tree no two of them
start at the same offset (`pairwise_offenders`).
-/

namespace PubSweep

namespace ItemKind

theorem mem_all (kind : ItemKind) : kind ∈ all := by
  cases kind <;> decide

theorem ofNodeKind_eq_some_iff {name : String} {kind : ItemKind} :
    ofNodeKind name = some kind ↔ name = kind.nodeKind := by
  constructor
  · intro h
    have hfound := List.find?_some h
    exact (beq_iff_eq.mp hfound).symm
  · rintro rfl
    cases kind <;> decide

theorem ofNodeKind_keyword (kind : ItemKind) : ofNodeKind kind.keyword = none := by
  cases kind <;> decide

theorem nodeKind_ne_source_file (kind : ItemKind) : kind.nodeKind ≠ "source_file" := by
  cases kind <;> decide

theorem nodeKind_ne_brace (kind : ItemKind) : kind.nodeKind ≠ "\x7b" := by
  cases kind <;> decide

end ItemKind

namespace Visibility

open Syntax

/-- Below these nodes, the nearest first, is directly in a file or in the body of a module. -/
def InModule : List Node → Prop
  | [] => False
  | [parent] => parent.kind = "source_file"
  | parent :: outer :: _ =>
    parent.kind = "source_file" ∨ (parent.kind = "declaration_list" ∧ outer.kind = "mod_item")

instance : DecidablePred InModule
  | [] => inferInstanceAs (Decidable False)
  | [_] => inferInstanceAs (Decidable (_ = _))
  | _ :: _ :: _ => inferInstanceAs (Decidable (_ ∨ _))

/-- An item of one of some kinds, with its keyword and without a visibility, directly in a file
or in the body of a module. -/
def Offends (kinds : List ItemKind) (p : Place) : Prop :=
  ∃ kind ∈ kinds, p.node.kind = kind.nodeKind ∧
    (∃ c ∈ p.node.children, c.isNamed = false ∧ c.kind = kind.keyword) ∧
    (∀ c ∈ p.node.children, c.kind ≠ "visibility_modifier") ∧ InModule p.above

instance (kinds : List ItemKind) : DecidablePred (Offends kinds) :=
  fun _ => inferInstanceAs (Decidable (∃ kind ∈ kinds, _))

/-- The places of the items that lack a visibility, in the order of the text. -/
def offenders (kinds : List ItemKind) (root : Node) : List Place :=
  root.places.filter (Offends kinds ·)

/-- The offsets at which these items start. -/
def anchors (kinds : List ItemKind) (root : Node) : List Nat :=
  (offenders kinds root).map (·.node.span.start)

theorem mem_offenders {kinds : List ItemKind} {root : Node} {p : Place} :
    p ∈ offenders kinds root ↔ p ∈ root.places ∧ Offends kinds p := by
  simp [offenders]

theorem mem_anchors {kinds : List ItemKind} {root : Node} {offset : Nat} :
    offset ∈ anchors kinds root ↔
      ∃ p ∈ root.places, Offends kinds p ∧ p.node.span.start = offset := by
  simp only [anchors, List.mem_map, mem_offenders, and_assoc]

theorem Offends.mono {kinds kinds' : List ItemKind} (hsub : kinds ⊆ kinds') {p : Place}
    (h : Offends kinds p) : Offends kinds' p := by
  obtain ⟨kind, hkind, hrest⟩ := h
  exact ⟨kind, hsub hkind, hrest⟩

theorem Offends.all {kinds : List ItemKind} {p : Place} (h : Offends kinds p) :
    Offends ItemKind.all p :=
  h.mono fun kind _ => kind.mem_all

theorem anchors_sublist_all (kinds : List ItemKind) (root : Node) :
    (anchors kinds root).Sublist (anchors ItemKind.all root) := by
  have hfilter : offenders kinds root = (offenders ItemKind.all root).filter (Offends kinds ·) := by
    rw [offenders, offenders, List.filter_filter]
    apply List.filter_congr
    intro p _
    by_cases hoff : Offends kinds p
    · simp [hoff, hoff.all]
    · simp [hoff]
  rw [anchors, hfilter]
  exact List.filter_sublist.map _

theorem isModuleScope_iff (above : List Node) : isModuleScope above = true ↔ InModule above := by
  match above with
  | [] => simp [isModuleScope, InModule]
  | [parent] => simp [isModuleScope, InModule]
  | parent :: outer :: above => simp [isModuleScope, InModule]

theorem hasVisibility_eq_false_iff (n : Node) :
    hasVisibility n = false ↔ ∀ c ∈ n.children, c.kind ≠ "visibility_modifier" := by
  simp [hasVisibility]

theorem exists_keyword_iff (n : Node) (kind : ItemKind) :
    (∃ k, keyword? n kind = some k) ↔
      ∃ c ∈ n.children, c.isNamed = false ∧ c.kind = kind.keyword := by
  rw [← Option.isSome_iff_exists, keyword?, List.find?_isSome]
  simp

/-! ### The rule -/

/-- The finding of the rule at a place. -/
def checkAt (kinds : List ItemKind) (document : Document) (p : Place) : Option Finding :=
  check kinds document p.cursor

theorem check_eq_checkAt (kinds : List ItemKind) (document : Document) (c : Cursor) :
    check kinds document c = checkAt kinds document c.place := by
  simp only [checkAt, check, Cursor.place, Place.node_cursor, Place.ancestors_cursor]

theorem findings_eq (kinds : List ItemKind) (document : Document) :
    findings kinds document = document.tree.root.places.filterMap (checkAt kinds document) := by
  have hcheck : check kinds document = checkAt kinds document ∘ Cursor.place :=
    funext (check_eq_checkAt kinds document)
  rw [findings, hcheck, ← List.filterMap_map, SyntaxTree.walk, map_place_walk]

/-- What a finding tells of its place: the item, its keyword, and the document. -/
theorem checkAt_eq_some {kinds : List ItemKind} {document : Document} {p : Place} {f : Finding}
    (h : checkAt kinds document p = some f) :
    Offends kinds p ∧ f.document = document.id ∧
      ∃ k, keyword? p.node f.item = some k ∧ p.node.kind = f.item.nodeKind ∧ f.span = k.span := by
  simp only [checkAt, check, Place.node_cursor, Place.ancestors_cursor] at h
  split at h
  case h_1 => cases h
  case h_2 kind hkind =>
    split at h
    case isTrue => cases h
    case isFalse hguard =>
      split at h
      case h_1 => cases h
      case h_2 span hspan =>
        obtain ⟨k, hk, rfl⟩ := Option.map_eq_some_iff.mp hspan
        have hname := ItemKind.ofNodeKind_eq_some_iff.mp hkind
        simp only [Bool.or_eq_true, Bool.not_eq_true', not_or, Bool.not_eq_false,
          Bool.not_eq_true, List.contains_iff_mem] at hguard
        obtain ⟨⟨hlisted, hbare⟩, hscope⟩ := hguard
        cases h
        refine ⟨⟨kind, hlisted, hname, (exists_keyword_iff _ _).mp ⟨k, hk⟩,
          (hasVisibility_eq_false_iff _).mp hbare, (isModuleScope_iff _).mp hscope⟩, rfl, k, hk,
          hname, rfl⟩

/-- The rule has a finding exactly where an item lacks its visibility. -/
theorem isSome_checkAt_iff {kinds : List ItemKind} {document : Document} {p : Place} :
    (checkAt kinds document p).isSome = true ↔ Offends kinds p := by
  constructor
  · intro h
    obtain ⟨f, hf⟩ := Option.isSome_iff_exists.mp h
    exact (checkAt_eq_some hf).1
  · rintro ⟨kind, hlisted, hname, hkeyword, hbare, hscope⟩
    have hkind := ItemKind.ofNodeKind_eq_some_iff.mpr hname
    obtain ⟨k, hk⟩ := (exists_keyword_iff _ _).mpr hkeyword
    have hvisible := (hasVisibility_eq_false_iff _).mpr hbare
    have hmodule := (isModuleScope_iff _).mpr hscope
    simp [checkAt, check, hkind, hlisted, hvisible, hmodule, keywordSpan, hk]

/-! ### Offenders in a well-formed tree -/

variable {text : List Char} {root : Node}

/-- An item with a keyword is not empty. -/
theorem Offends.start_lt_stop {kinds : List ItemKind} (hshape : root.Shaped text) {p : Place}
    (hp : p ∈ root.places) (h : Offends kinds p) : p.node.span.start < p.node.span.stop := by
  obtain ⟨kind, -, -, ⟨k, hk, hnamed, hkind⟩, -, -⟩ := h
  have htoken : k.span.start < k.span.stop :=
    (hshape.keyword _ (Node.child_mem_places hp hk) kind hnamed hkind).2
  have hinside := hshape.inside p hp k hk
  omega

/-- The body of a module starts with its brace, so an item in it starts later. -/
theorem start_lt_of_mem_declarations (hshape : root.Shaped text) {q : Place}
    (hq : q ∈ root.places) (hlist : q.node.kind = "declaration_list") {c : Node}
    (hc : c ∈ q.node.children) (hbrace : c.kind ≠ "\x7b") :
    q.node.span.start < c.span.start := by
  obtain ⟨b, cs, hchildren, hkind, hspan⟩ := hshape.brace q hq hlist
  have hordered := hshape.ordered q hq
  have hinside := hshape.inside q hq b (by rw [hchildren]; exact List.mem_cons_self)
  rw [hchildren] at hordered hc
  rcases List.mem_cons.mp hc with rfl | hc
  · exact absurd hkind hbrace
  · have hafter := List.rel_of_pairwise_cons hordered hc
    omega

/-- An item in a module starts behind every item around it. -/
theorem Offends.start_lt_of_mem_above {kinds : List ItemKind} (hshape : root.Shaped text)
    {p : Place} (hp : p ∈ root.places) (h : Offends kinds p) {a : Node} (ha : a ∈ p.above)
    {kind : ItemKind} (hkind : a.kind = kind.nodeKind) : a.span.start < p.node.span.start := by
  obtain ⟨own, -, hname, -, -, hscope⟩ := h
  rcases Node.eq_or_child_of_place root hp with rfl | ⟨q, hq, habove, hchild⟩
  · cases ha
  · rw [habove] at ha hscope
    by_cases hfile : q.node.kind = "source_file"
    · -- A file is the root, so it is the only node above.
      rw [hshape.file q hq hfile, List.mem_singleton] at ha
      rw [ha, hfile] at hkind
      exact absurd hkind.symm kind.nodeKind_ne_source_file
    · have hlist : q.node.kind = "declaration_list" := by
        cases hq : q.above with
        | nil => exact absurd (by simpa [InModule, hq] using hscope) hfile
        | cons outer above =>
            rw [hq] at hscope
            exact (hscope.resolve_left hfile).1
      have hbehind := start_lt_of_mem_declarations hshape hq hlist hchild
        (by rw [hname]; exact own.nodeKind_ne_brace)
      rcases List.mem_cons.mp ha with rfl | ha
      · exact hbehind
      · have hle := hshape.start_le_of_mem_above hq ha
        omega

/-- The offenders of a tree start one behind the other. -/
theorem pairwise_offenders (kinds : List ItemKind) (hshape : root.Shaped text) :
    (offenders kinds root).Pairwise fun p q => p.node.span.start < q.node.span.start := by
  rw [offenders, List.pairwise_filter]
  refine List.Pairwise.imp_of_mem ?_ hshape.pairwise_places
  intro p q hp hq hprecedes hoffp hoffq
  rw [decide_eq_true_eq] at hoffp hoffq
  rcases hprecedes with habove | hbefore
  · obtain ⟨kind, -, hkind, -⟩ := hoffp
    exact hoffq.start_lt_of_mem_above hshape hq habove hkind
  · have hspan := hoffp.start_lt_stop hshape hp
    omega

theorem pairwise_anchors (kinds : List ItemKind) (hshape : root.Shaped text) :
    (anchors kinds root).Pairwise (· < ·) :=
  List.pairwise_map.mpr (pairwise_offenders kinds hshape)

theorem nodup_anchors (kinds : List ItemKind) (hshape : root.Shaped text) :
    (anchors kinds root).Nodup :=
  (pairwise_anchors kinds hshape).imp Nat.ne_of_lt

theorem isBoundary_of_mem_anchors {kinds : List ItemKind} (hshape : root.Shaped text)
    {offset : Nat} (h : offset ∈ anchors kinds root) : Text.isBoundary offset text = true := by
  obtain ⟨p, hp, -, rfl⟩ := mem_anchors.mp h
  exact (hshape.boundary p hp).1

end Visibility

end PubSweep
