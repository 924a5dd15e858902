import PubSweep.Proofs.Visibility.Publish
import PubSweep.Visibility.Proposal

/-!
From a finding back to its item.

The rule goes from an item to its keyword.  The proposer goes the other way: from a span to the
smallest node around it, and up from there.  In a tree whose keywords are tokens that is the inverse
(`propose_of_resolves`), and a span leads to one item at most (`filter_resolves`).
-/

namespace PubSweep

open Syntax

namespace Syntax.Node

/-- The nodes around a range are nodes of the tree. -/
theorem exists_place_of_mem_pathTo (n : Node) : ∀ {range : Span} {above : List Node} {m : Node},
    m ∈ n.pathTo range above → m ∈ above ∨ ∃ p ∈ n.placesBelow above, p.node = m := by
  have among : ∀ (range : Span) (path cs : List Node), pathToAmong range path cs = path ∨
      ∃ c ∈ cs, pathToAmong range path cs = c.pathTo range path := by
    intro range path cs
    induction cs with
    | nil => exact Or.inl rfl
    | cons c cs ih =>
        rw [pathToAmong]
        split
        · rcases ih with hpath | ⟨d, hd, hpath⟩
          · exact Or.inl hpath
          · exact Or.inr ⟨d, List.mem_cons_of_mem c hd, hpath⟩
        · split
          · exact Or.inl rfl
          · exact Or.inr ⟨c, List.mem_cons_self, rfl⟩
  induction n using induct with
  | mk i cs ih =>
      intro range above m hm
      rw [pathTo] at hm
      have hroot : m ∈ Node.mk i cs :: above →
          m ∈ above ∨ ∃ p ∈ (Node.mk i cs).placesBelow above, p.node = m := by
        intro hm
        rcases List.mem_cons.mp hm with rfl | hm
        · exact Or.inr ⟨_, mem_placesBelow_self above _, rfl⟩
        · exact Or.inl hm
      rcases among range (.mk i cs :: above) cs with hpath | ⟨c, hc, hpath⟩
      · exact hroot (hpath ▸ hm)
      · rw [hpath] at hm
        rcases ih c hc hm with habove | ⟨p, hp, rfl⟩
        · exact hroot habove
        · exact Or.inr ⟨p, mem_placesBelow_of_child hc hp, rfl⟩

theorem size_lt_of_mem_children {n c : Node} (h : c ∈ n.children) : c.size < n.size := by
  obtain ⟨i, cs⟩ := n
  have hall : ∀ cs : List Node, c ∈ cs → c.size ≤ sizeAll cs := by
    intro cs hc
    induction cs with
    | nil => cases hc
    | cons d cs ih =>
        rw [sizeAll]
        rcases List.mem_cons.mp hc with rfl | hc
        · omega
        · have := ih hc
          omega
  have hle := hall cs h
  rw [size]
  omega

/-- What lies below a node is smaller than the node. -/
theorem size_lt_of_mem_above (n : Node) : ∀ {above : List Node} {p : Place},
    p ∈ n.placesBelow above →
      p.node.size ≤ n.size ∧ ∀ a ∈ p.above, a ∈ above ∨ p.node.size < a.size := by
  induction n using induct with
  | mk i cs ih =>
      intro above p hp
      rcases eq_or_below_child hp with rfl | ⟨c, hc, hbelow⟩
      · exact ⟨Nat.le_refl _, fun a ha => Or.inl ha⟩
      · obtain ⟨hle, habove⟩ := ih c hc hbelow
        have hlt := size_lt_of_mem_children hc
        refine ⟨by omega, ?_⟩
        intro a ha
        rcases habove a ha with hmem | hsmaller
        · rcases List.mem_cons.mp hmem with rfl | hmem
          · exact Or.inr (by omega)
          · exact Or.inl hmem
        · exact Or.inr hsmaller

/-- No node of a tree lies below itself. -/
theorem not_mem_above_self {root : Node} {p : Place} (hp : p ∈ root.places) : p.node ∉ p.above := by
  intro hmem
  rcases (size_lt_of_mem_above root hp).2 _ hmem with hnil | hlt
  · cases hnil
  · exact Nat.lt_irrefl _ hlt

end Syntax.Node

namespace Visibility

/-- The node is an item of the kind of a finding, without a visibility, and the first of its
keywords is at the span of the finding. -/
def Resolves (f : Finding) (n : Node) : Prop :=
  n.kind = f.item.nodeKind ∧ (∀ c ∈ n.children, c.kind ≠ "visibility_modifier") ∧
    (n.children.find? fun c => !c.isNamed && c.kind == f.item.keyword).map Node.span = some f.span

instance (f : Finding) : DecidablePred (Resolves f) :=
  fun _ => inferInstanceAs (Decidable (_ ∧ _ ∧ _))

section

variable {d : Document} (htree : d.tree.Tokenized) {f : Finding}

include htree

/-- Around the span of a finding are the keyword, its item, and what lies above the item. -/
theorem covering_of_resolves {p : Place} (hp : p ∈ d.tree.root.places) (h : Resolves f p.node) :
    ∃ k ∈ p.node.children, k.kind = f.item.keyword ∧ k.span = f.span ∧
      k.span.start < k.span.stop ∧ d.tree.covering f.span = k :: p.node :: p.above := by
  obtain ⟨k, hfind, hspan⟩ := Option.map_eq_some_iff.mp h.2.2
  have hmem : k ∈ p.node.children := List.mem_of_find?_eq_some hfind
  have htoken : k.isNamed = false ∧ k.kind = f.item.keyword := by
    simpa using List.find?_some hfind
  have hplace := Node.child_mem_places hp hmem
  obtain ⟨hleaf, hcovers⟩ := htree.keyword _ hplace f.item htoken.1 htoken.2
  have hcovering := htree.covering_leaf hplace hleaf hcovers
  exact ⟨k, hmem, htoken.2, hspan, hcovers, hspan ▸ hcovering⟩

theorem itemAtKeyword_of_resolves {p : Place} (hp : p ∈ d.tree.root.places)
    (h : Resolves f p.node) : itemAtKeyword d.tree f.span = some (p.node, f.item) := by
  obtain ⟨k, -, hkind, -, -, hcovering⟩ := covering_of_resolves htree hp h
  have hkeyword : keywordSpan p.node f.item = some f.span := h.2.2
  -- The keyword itself is no item, so the search goes on to the node above it.
  simp [itemAtKeyword, hcovering, hkind, ItemKind.ofNodeKind_keyword,
    ItemKind.ofNodeKind_eq_some_iff.mpr h.1, hkeyword]

/-- The edit for a finding goes in front of the item of the finding. -/
theorem propose_of_resolves {p : Place} (hp : p ∈ d.tree.root.places)
    (hdocument : f.document = d.id) (h : Resolves f p.node) (fix : FixId) :
    propose fix d f = .ok (.ofFinding (.empty p.node.span.start) (fix.token ++ " ") fix f) := by
  have hitem := itemAtKeyword_of_resolves htree hp h
  have hvisible := (hasVisibility_eq_false_iff _).mpr h.2.1
  simp [propose, hdocument, hitem, hvisible]

/-- A finding has one item at most. -/
theorem filter_resolves {p : Place} (hp : p ∈ d.tree.root.places) (h : Resolves f p.node) :
    d.tree.root.places.filter (Resolves f ·.node) = [p] := by
  have hpairs : (d.tree.root.places.filter (Resolves f ·.node)).Pairwise fun _ _ => False := by
    rw [List.pairwise_filter]
    refine List.Pairwise.imp_of_mem ?_ htree.nested.pairwise_placesBelow
    intro q r hq hr hprecedes hfq hfr
    rw [decide_eq_true_eq] at hfq hfr
    obtain ⟨k, hk, -, hkspan, hcovers, hcovering⟩ := covering_of_resolves htree hq hfq
    obtain ⟨k', hk', -, hkspan', -, hcovering'⟩ := covering_of_resolves htree hr hfr
    rcases hprecedes with habove | hbefore
    · -- Both are found on the way to the same span, so one would lie below itself.
      rw [hcovering, List.cons.injEq, List.cons.injEq] at hcovering'
      rw [← hcovering'.2.2] at habove
      exact Node.not_mem_above_self hq habove
    · have hinside := (htree.nested q hq).1 k hk
      have hinside' := (htree.nested r hr).1 k' hk'
      rw [hkspan] at hinside hcovers
      rw [hkspan'] at hinside'
      omega
  have hmem : p ∈ d.tree.root.places.filter (Resolves f ·.node) :=
    List.mem_filter.mpr ⟨hp, decide_eq_true h⟩
  generalize d.tree.root.places.filter (Resolves f ·.node) = found at hpairs hmem
  match found with
  | [] => cases hmem
  | [q] => rw [List.mem_singleton.mp hmem]
  | q :: r :: rest => exact ((List.pairwise_cons.mp hpairs).1 r List.mem_cons_self).elim

end

/-- Where an edit is proposed, there is an item for the finding. -/
theorem exists_resolves_of_propose {fix : FixId} {d : Document} {f : Finding} {e : Edit}
    (h : propose fix d f = .ok e) :
    f.document = d.id ∧ ∃ p ∈ d.tree.root.places, Resolves f p.node := by
  rw [propose] at h
  split at h
  case isTrue => cases h
  case isFalse hdocument =>
    refine ⟨Decidable.not_not.mp hdocument, ?_⟩
    split at h
    case h_1 => cases h
    case h_2 item kind hitem =>
      split at h
      case isTrue => cases h
      case isFalse hguard =>
        simp only [Bool.or_eq_true, decide_eq_true_eq, not_or, Decidable.not_not,
          Bool.not_eq_true] at hguard
        obtain ⟨rfl, hvisible⟩ := hguard
        obtain ⟨n, hn, hfound⟩ := List.exists_of_findSome?_eq_some hitem
        split at hfound
        case h_2 => cases hfound
        case h_1 kind hkind =>
          split at hfound
          case isFalse => cases hfound
          case isTrue hkeyword =>
            cases hfound
            have hplace : ∃ p ∈ d.tree.root.places, p.node = item := by
              rw [SyntaxTree.covering] at hn
              split at hn
              · cases hn
              · exact (Node.exists_place_of_mem_pathTo _ hn).resolve_left List.not_mem_nil
            obtain ⟨p, hp, rfl⟩ := hplace
            exact ⟨p, hp, ItemKind.ofNodeKind_eq_some_iff.mp hkind,
              (hasVisibility_eq_false_iff _).mp hvisible, hkeyword⟩

/-- There is one way to refuse a finding. -/
theorem eq_nodeNotFound_of_propose {fix : FixId} {d : Document} {f : Finding} {e : FixError}
    (h : propose fix d f = .error e) : e = .nodeNotFound f.path f.span := by
  rw [propose] at h
  split at h
  · exact (Except.error.inj h).symm
  · split at h
    · exact (Except.error.inj h).symm
    · split at h
      · exact (Except.error.inj h).symm
      · cases h

/-! ### Findings of the rule -/

theorem resolves_of_checkAt {kinds : List ItemKind} {d : Document} {p : Place} {f : Finding}
    (h : checkAt kinds d p = some f) : f.document = d.id ∧ Resolves f p.node := by
  obtain ⟨⟨_, -, -, -, hbare, -⟩, hdocument, k, hk, hkind, hspan⟩ := checkAt_eq_some h
  refine ⟨hdocument, hkind, hbare, ?_⟩
  rw [hspan]
  exact Option.map_eq_some_iff.mpr ⟨k, hk, rfl⟩

/-- The edit for a finding of the rule goes in front of the item that the rule has found. -/
theorem propose_of_checkAt {kinds : List ItemKind} {d : Document} (htree : d.tree.Tokenized)
    {p : Place} (hp : p ∈ d.tree.root.places) {f : Finding} (hf : checkAt kinds d p = some f)
    (fix : FixId) :
    propose fix d f = .ok (.ofFinding (.empty p.node.span.start) (fix.token ++ " ") fix f) :=
  have hresolves := resolves_of_checkAt hf
  propose_of_resolves htree hp hresolves.1 hresolves.2 fix

/-! ### The proposer as a whole -/

/-- A finding leads to a place: no other item fits the finding, and the edit goes in front of the
item there. -/
structure LeadsTo (fix : FixId) (d : Document) (f : Finding) (p : Place) : Prop where
  sole : d.tree.root.places.filter (Resolves f ·.node) = [p]
  edit : propose fix d f = .ok (.ofFinding (.empty p.node.span.start) (fix.token ++ " ") fix f)

/-- An edit is proposed for a finding, whatever it says, exactly if the finding belongs to the
document and there is an item for it.  The finding leads to that item; all others are refused in the
same way.  A finding of the rule leads to the item that the rule has found. -/
theorem propose_resolves {d : Document} (htree : d.tree.Tokenized) (fix : FixId) :
    (∀ f : Finding,
      ((∃ e, propose fix d f = .ok e) ↔
        f.document = d.id ∧ ∃ p ∈ d.tree.root.places, Resolves f p.node) ∧
      (∀ p ∈ d.tree.root.places, f.document = d.id → Resolves f p.node → LeadsTo fix d f p) ∧
      ((¬ ∃ e, propose fix d f = .ok e) →
        propose fix d f = .error (.nodeNotFound f.path f.span))) ∧
    ∀ kinds fs, evaluate kinds d = .ok fs → ∀ f ∈ fs, ∃ c ∈ d.tree.walk,
      check kinds d c = some f ∧ LeadsTo fix d f c.place := by
  have hleads : ∀ (f : Finding), ∀ p ∈ d.tree.root.places, f.document = d.id →
      Resolves f p.node → LeadsTo fix d f p := fun f p hp hdocument hf =>
    ⟨filter_resolves htree hp hf, propose_of_resolves htree hp hdocument hf fix⟩
  refine ⟨fun f => ⟨⟨?_, ?_⟩, hleads f, ?_⟩, ?_⟩
  · rintro ⟨e, he⟩
    exact exists_resolves_of_propose he
  · rintro ⟨hdocument, p, hp, hf⟩
    exact ⟨_, (hleads f p hp hdocument hf).edit⟩
  · intro hrefused
    cases hpropose : propose fix d f with
    | ok e => exact absurd ⟨e, hpropose⟩ hrefused
    | error e => rw [eq_nodeNotFound_of_propose hpropose]
  · intro kinds fs hevaluate f hf
    have hfindings : fs = findings kinds d := by
      rw [evaluate] at hevaluate
      split at hevaluate
      · cases hevaluate
      · exact (Except.ok.inj hevaluate).symm
    rw [hfindings, findings] at hf
    obtain ⟨c, hc, hcheck⟩ := List.mem_filterMap.mp hf
    have hplace : c.place ∈ d.tree.root.places := by
      rw [← map_place_walk]
      exact List.mem_map_of_mem hc
    obtain ⟨hdocument, hresolves⟩ := resolves_of_checkAt (check_eq_checkAt kinds d c ▸ hcheck)
    exact ⟨c, hc, hcheck, hleads f _ hplace hdocument hresolves⟩

/-- An item that stands in another one. -/
def innerDocument : Document where
  id := ⟨1#128⟩
  path := ⟨"src/lib.rs"⟩
  tree :=
    { text := "fn f() \x7b struct A; \x7d"
      parsed :=
        { root :=
            .mk { kind := "source_file", isNamed := true, span := ⟨0, 20⟩ }
              [.mk { kind := "function_item", isNamed := true, span := ⟨0, 20⟩ }
                [tokenNode "fn" false 0 2,
                  tokenNode "identifier" true 3 4,
                  .mk { kind := "parameters", isNamed := true, span := ⟨4, 6⟩ }
                    [tokenNode "(" false 4 5, tokenNode ")" false 5 6],
                  .mk { kind := "block", isNamed := true, span := ⟨7, 20⟩ }
                    [tokenNode "\x7b" false 7 8,
                      .mk { kind := "struct_item", isNamed := true, span := ⟨9, 18⟩ }
                        [tokenNode "struct" false 9 15,
                          tokenNode "type_identifier" true 16 17,
                          tokenNode ";" false 17 18],
                      tokenNode "\x7d" false 19 20]]]
          hasErrors := false } }

/-- A finding at the keyword of the inner item. -/
def innerFinding (item : ItemKind) : Finding where
  rule := .missingVisibility
  document := innerDocument.id
  path := innerDocument.path
  span := ⟨9, 15⟩
  position := ⟨1, 10⟩
  item := item

theorem tokenized_innerDocument : innerDocument.tree.Tokenized where
  nested := by
    rw [Node.Nested]
    decide +kernel
  keyword := by
    have htokens : ∀ p ∈ innerDocument.tree.root.places, p.node.isNamed = false →
        p.node.children = [] ∧ p.node.span.start < p.node.span.stop := by
      decide +kernel
    exact fun p hp _ hnamed _ => htokens p hp hnamed
  within := by decide +kernel
  narrow := by decide

theorem propose_resolves_inner :
    innerDocument.tree.Tokenized ∧
      propose .makePub innerDocument (innerFinding .struct) =
        .ok (.ofFinding (.empty 9) "pub " .makePub (innerFinding .struct)) ∧
      propose .makePub innerDocument (innerFinding .function) =
        .error (.nodeNotFound ⟨"src/lib.rs"⟩ ⟨9, 15⟩) := by
  have hresolves := (propose_resolves tokenized_innerDocument .makePub).1
  have hstruct : ∃ p ∈ innerDocument.tree.root.places, Resolves (innerFinding .struct) p.node ∧
      p.node.span.start = 9 := by
    decide +kernel
  have hfunction : ¬ ∃ p ∈ innerDocument.tree.root.places,
      Resolves (innerFinding .function) p.node := by
    decide +kernel
  obtain ⟨p, hp, hitem, hstart⟩ := hstruct
  refine ⟨tokenized_innerDocument, ?_, ?_⟩
  · have hedit := ((hresolves (innerFinding .struct)).2.1 p hp rfl hitem).edit
    rw [hedit, hstart]
    rfl
  · apply (hresolves (innerFinding .function)).2.2
    rw [(hresolves (innerFinding .function)).1]
    exact fun h => hfunction h.2

end Visibility

end PubSweep
