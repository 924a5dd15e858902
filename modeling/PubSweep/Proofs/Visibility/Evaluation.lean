import PubSweep.Proofs.Text.Position
import PubSweep.Proofs.Visibility.Publish

/-!
What the rule reports, as a recursion from the root down.

The rule walks over all nodes and looks up from each of them, to its parent and to the node above
that.  The recursion comes down with what it has seen on its way: whether it stands directly in a
module (`Scope`).  Both find the same items in the same order (`findings_eq_report`), and
`evaluate_reports` says what becomes of them.
-/

namespace PubSweep

open Syntax

namespace Visibility

/-- Where a node stands. -/
inductive Scope where
  /-- Directly in a file or in the body of a module. -/
  | inModule
  /-- Directly in the item of a module, as its body does. -/
  | inModuleItem
  | elsewhere
deriving DecidableEq

/-- Where the children of a node of some kind stand. -/
def Scope.below (scope : Scope) (kind : String) : Scope :=
  if kind = "source_file" then .inModule
  else if kind = "mod_item" then .inModuleItem
  else if kind = "declaration_list" ∧ scope = .inModuleItem then .inModule
  else .elsewhere

theorem Scope.below_eq_inModuleItem_iff (scope : Scope) (kind : String) :
    scope.below kind = .inModuleItem ↔ kind = "mod_item" := by
  rw [below]
  by_cases hfile : kind = "source_file"
  · simp [hfile]
  · by_cases hmod : kind = "mod_item"
    · simp [hmod]
    · rw [if_neg hfile, if_neg hmod]
      split <;> simp [hmod]

theorem Scope.below_eq_inModule_iff (scope : Scope) (kind : String) :
    scope.below kind = .inModule ↔
      kind = "source_file" ∨ (kind = "declaration_list" ∧ scope = .inModuleItem) := by
  rw [below]
  by_cases hfile : kind = "source_file"
  · simp [hfile]
  · by_cases hmod : kind = "mod_item"
    · simp [hmod]
    · simp [hfile, hmod]

/-- An item without a visibility, its kind and its keyword. -/
structure BareItem where
  kind : ItemKind
  node : Node
  keyword : Node

/-- The node as an item of one of some kinds that has its keyword and no visibility. -/
def bareItem? (kinds : List ItemKind) (n : Node) : Option BareItem :=
  match kinds.find? (·.nodeKind = n.kind) with
  | none => none
  | some kind =>
    if ∃ c ∈ n.children, c.kind = "visibility_modifier" then none
    else (n.children.find? fun c => !c.isNamed && c.kind == kind.keyword).map (⟨kind, n, ·⟩)

mutual
/-- The items without a visibility in a tree that stand directly in a module, from the root down:
the root if it is one, then those below it. -/
def bareItems (kinds : List ItemKind) (scope : Scope) : Node → List BareItem
  | .mk i cs =>
    (if scope = .inModule then (bareItem? kinds (.mk i cs)).toList else []) ++
      bareItemsAmong kinds (scope.below i.kind) cs

/-- The same for several trees, one tree after the other. -/
def bareItemsAmong (kinds : List ItemKind) (scope : Scope) : List Node → List BareItem
  | [] => []
  | c :: cs => bareItems kinds scope c ++ bareItemsAmong kinds scope cs
end

/-- The finding for an item without a visibility. -/
def report (d : Document) (item : BareItem) : Finding where
  rule := .missingVisibility
  document := d.id
  path := d.path
  span := item.keyword.span
  position := Text.lineAndColumn (Text.bytesOf d.text.toList) item.keyword.span.start
  item := item.kind
  name := itemName d.tree item.node

/-! ### Down and up -/

/-- Where a node stands below these nodes, the nearest first. -/
def Scope.of : (above : List Node) → Scope
  | [] => .elsewhere
  | parent :: above => (Scope.of above).below parent.kind

theorem Scope.of_eq_inModule_iff (above : List Node) :
    Scope.of above = .inModule ↔ InModule above := by
  match above with
  | [] => simp [Scope.of, InModule]
  | [parent] => simp [Scope.of, below_eq_inModule_iff, InModule]
  | parent :: outer :: above =>
      simp [Scope.of, below_eq_inModule_iff, below_eq_inModuleItem_iff, InModule]

/-- The item at a place, if it stands directly in a module and has no visibility. -/
def bareItemAt? (kinds : List ItemKind) (p : Place) : Option BareItem :=
  if InModule p.above then bareItem? kinds p.node else none

/-- The recursion finds an item where the walk does. -/
theorem bareItems_eq (kinds : List ItemKind) (n : Node) (above : List Node) :
    bareItems kinds (Scope.of above) n =
      (n.placesBelow above).filterMap (bareItemAt? kinds) := by
  induction n using Node.induct generalizing above with
  | mk i cs ih =>
      have hamong : ∀ ds : List Node, ds ⊆ cs →
          bareItemsAmong kinds (Scope.of (.mk i cs :: above)) ds =
            (Node.placesAmong (.mk i cs :: above) ds).filterMap (bareItemAt? kinds) := by
        intro ds hds
        induction ds with
        | nil => rfl
        | cons d ds ihds =>
            rw [List.cons_subset] at hds
            rw [bareItemsAmong, Node.placesAmong, List.filterMap_append, ih d hds.1, ihds hds.2]
      have hroot : bareItemAt? kinds ⟨.mk i cs, above⟩ =
          if Scope.of above = .inModule then bareItem? kinds (.mk i cs) else none := by
        simp only [bareItemAt?, Scope.of_eq_inModule_iff]
      have hscope : Scope.of (.mk i cs :: above) = (Scope.of above).below i.kind := rfl
      rw [bareItems, Node.placesBelow, List.filterMap_cons, hroot, ← hscope,
        hamong cs (List.Subset.refl cs)]
      split
      · cases bareItem? kinds (.mk i cs) <;> rfl
      · rfl

/-- Of some kinds, at most one is that of a node. -/
theorem find?_nodeKind (kinds : List ItemKind) (name : String) :
    kinds.find? (·.nodeKind = name) = (ItemKind.ofNodeKind name).filter (· ∈ kinds) := by
  cases hfound : kinds.find? (·.nodeKind = name) with
  | none =>
      cases hname : ItemKind.ofNodeKind name with
      | none => rfl
      | some kind =>
          rw [ItemKind.ofNodeKind_eq_some_iff] at hname
          rw [List.find?_eq_none] at hfound
          have hmem : kind ∉ kinds := fun hmem => hfound kind hmem (by simpa using hname.symm)
          simp [Option.filter, hmem]
  | some kind =>
      have hname : name = kind.nodeKind := by simpa [eq_comm] using List.find?_some hfound
      have hmem := List.mem_of_find?_eq_some hfound
      rw [ItemKind.ofNodeKind_eq_some_iff.mpr hname]
      simp [Option.filter, hmem]

/-- The rule has a finding at a place where there is an item without a visibility, and tells of that
item. -/
theorem checkAt_eq (kinds : List ItemKind) (d : Document) (p : Place) :
    checkAt kinds d p = (bareItemAt? kinds p).map (report d) := by
  have hvisible : hasVisibility p.node = true ↔
      ∃ c ∈ p.node.children, c.kind = "visibility_modifier" := by simp [hasVisibility]
  have hmodule := isModuleScope_iff p.above
  simp only [checkAt, check, Place.node_cursor, Place.ancestors_cursor, bareItemAt?, bareItem?,
    find?_nodeKind]
  cases ItemKind.ofNodeKind p.node.kind with
  | none => simp [Option.filter]
  | some kind =>
      by_cases hlisted : kind ∈ kinds
      case neg => simp [Option.filter, hlisted]
      by_cases hmod : InModule p.above
      case neg => simp [hmod, hmodule]
      by_cases hbare : ∃ c ∈ p.node.children, c.kind = "visibility_modifier"
      case pos => simp [Option.filter, hlisted, hmod, hbare, hvisible.mpr hbare]
      have hhidden : hasVisibility p.node = false := by
        rw [Bool.eq_false_iff, ne_eq, hvisible]
        exact hbare
      simp only [Option.filter, hlisted, hmod, hhidden, hmodule.mpr hmod, hbare,
        List.contains_eq_mem, decide_true, if_true, if_false, Bool.not_true, Bool.or_false,
        Bool.false_eq_true, keywordSpan, keyword?]
      cases p.node.children.find? fun c => !c.isNamed && c.kind == kind.keyword with
      | none => rfl
      | some keyword =>
          simp only [Option.map_some, report, SyntaxTree.position, Text.position_eq]
          rfl

/-- The findings of a document are those of the recursion, in its order. -/
theorem findings_eq_report (kinds : List ItemKind) (d : Document) :
    findings kinds d = (bareItems kinds .elsewhere d.tree.root).map (report d) := by
  have hitems := bareItems_eq kinds d.tree.root []
  rw [Scope.of] at hitems
  have hcheck : checkAt kinds d = fun p => (bareItemAt? kinds p).map (report d) :=
    funext (checkAt_eq kinds d)
  rw [findings_eq, hcheck, hitems, List.map_filterMap, Node.places]

/-! ### Kinds -/

theorem bareItem?_eq_filter (kinds : List ItemKind) (n : Node) :
    bareItem? kinds n = (bareItem? ItemKind.all n).filter (·.kind ∈ kinds) := by
  simp only [bareItem?, find?_nodeKind]
  cases ItemKind.ofNodeKind n.kind with
  | none => rfl
  | some kind =>
      simp only [Option.filter, ItemKind.mem_all, decide_true, if_true]
      by_cases hbare : ∃ c ∈ n.children, c.kind = "visibility_modifier"
      case pos => by_cases hlisted : kind ∈ kinds <;> simp [hbare, hlisted]
      by_cases hlisted : kind ∈ kinds
      · simp only [hbare, hlisted, decide_true, if_true, if_false]
        cases n.children.find? fun c => !c.isNamed && c.kind == kind.keyword <;> simp [hlisted]
      · simp only [hbare, hlisted, decide_false, if_false, Bool.false_eq_true]
        cases n.children.find? fun c => !c.isNamed && c.kind == kind.keyword <;> simp [hlisted]

theorem checkAt_eq_filter (kinds : List ItemKind) (d : Document) (p : Place) :
    checkAt kinds d p = (checkAt ItemKind.all d p).filter (·.item ∈ kinds) := by
  rw [checkAt_eq, checkAt_eq, bareItemAt?, bareItemAt?]
  split
  · rw [bareItem?_eq_filter]
    cases bareItem? ItemKind.all p.node with
    | none => rfl
    | some item => by_cases hlisted : item.kind ∈ kinds <;> simp [Option.filter, report, hlisted]
  · rfl

/-- To look for some kinds only is to leave the findings of all others out. -/
theorem evaluate_eq_filter (kinds : List ItemKind) (d : Document) :
    evaluate kinds d =
      (evaluate ItemKind.all d).map (·.filter (·.item ∈ kinds)) := by
  have hfindings : findings kinds d = (findings ItemKind.all d).filter (·.item ∈ kinds) := by
    rw [findings_eq, findings_eq, List.filter_filterMap]
    exact congrArg (List.filterMap · _) (funext (checkAt_eq_filter kinds d))
  rw [evaluate, evaluate, hfindings]
  cases d.tree.firstError <;> rfl

/-! ### Faults -/

/-- The first fault is the first place of a fault, if the tree is marked as it should be. -/
theorem firstError_eq {t : SyntaxTree}
    (hmarked : t.hasErrors = true ↔ ∃ p ∈ t.root.places, p.node.isFault = true) :
    t.firstError = (t.root.places.find? (·.node.isFault)).map fun p =>
      Text.lineAndColumn (Text.bytesOf t.text.toList) p.node.span.start := by
  rw [SyntaxTree.firstError]
  split
  case isTrue =>
    rw [← map_place_walk, List.find?_map, Option.map_map]
    refine congrArg (Option.map · _) (funext fun c => ?_)
    exact Text.position_eq t.text.toList c.node.span.start
  case isFalse hclean =>
    have hnone : t.root.places.find? (·.node.isFault) = none := by
      rw [List.find?_eq_none]
      exact fun p hp hfault => hclean (hmarked.mpr ⟨p, hp, hfault⟩)
    rw [hnone]
    rfl

/-! ### The order of findings -/

/-- Children lie in their parents and follow one another, and the keyword of an item is a token that
comes before all items in it. -/
structure KeywordsLead (root : Node) : Prop where
  nested : root.Nested []
  /-- A keyword is not empty.  Only missing tokens are, and those are faults. -/
  token : ∀ p ∈ root.places, ∀ kind : ItemKind, p.node.kind = kind.nodeKind →
    ∀ k ∈ keyword? p.node kind, k.span.start < k.span.stop
  leads : ∀ p ∈ root.places, ∀ a ∈ p.above, ∀ kind outer : ItemKind,
    p.node.kind = kind.nodeKind → a.kind = outer.nodeKind →
      ∀ k ∈ keyword? a outer, k.span.stop ≤ p.node.span.start

theorem pairwise_findings {d : Document} (htree : KeywordsLead d.tree.root)
    (kinds : List ItemKind) :
    (findings kinds d).Pairwise fun f g =>
      f.span.start < g.span.start ∧ f.span.stop ≤ g.span.start := by
  rw [findings_eq, List.pairwise_filterMap]
  refine List.Pairwise.imp_of_mem ?_ htree.nested.pairwise_placesBelow
  intro p q hp hq hprecedes f hf g hg
  obtain ⟨-, -, k, hk, hkind, hspan⟩ := checkAt_eq_some hf
  obtain ⟨-, -, k', hk', hkind', hspan'⟩ := checkAt_eq_some hg
  have htoken := htree.token p hp f.item hkind k hk
  have hinside := (htree.nested p hp).1 k (List.mem_of_find?_eq_some hk)
  have hinside' := (htree.nested q hq).1 k' (List.mem_of_find?_eq_some hk')
  have hfirst : k.span.stop ≤ q.node.span.start := by
    rcases hprecedes with habove | hbefore
    · exact htree.leads q hq p.node habove g.item f.item hkind' hkind k hk
    · exact Nat.le_trans hinside.2 hbefore
  rw [hspan, hspan']
  omega

/-- What the rule says of a document whose tree is marked if it has a fault.  The first fault, in
the order of the text, is an error.  Without faults there is one finding for each item without a
visibility that the recursion finds from the root down, and no other, in its order.  The findings
for some kinds are those for all kinds, without the others.  Where the keyword of an item comes
before all items in it, the spans of findings follow one another. -/
theorem evaluate_reports (kinds : List ItemKind) (d : Document)
    (hmarked : d.tree.hasErrors = true ↔ ∃ p ∈ d.tree.root.places, p.node.isFault = true) :
    (∀ before p after, d.tree.root.places = before ++ p :: after → p.node.isFault = true →
      (∀ q ∈ before, q.node.isFault = false) →
        evaluate kinds d = .error (.malformedTree d.path
          (Text.lineAndColumn (Text.bytesOf d.text.toList) p.node.span.start))) ∧
    ((∀ p ∈ d.tree.root.places, p.node.isFault = false) →
      evaluate kinds d = .ok ((bareItems kinds .elsewhere d.tree.root).map (report d))) ∧
    evaluate kinds d = (evaluate ItemKind.all d).map (·.filter (·.item ∈ kinds)) ∧
    (KeywordsLead d.tree.root → ∀ fs, evaluate kinds d = .ok fs →
      fs.Pairwise fun f g => f.span.start < g.span.start ∧ f.span.stop ≤ g.span.start) := by
  refine ⟨?_, ?_, evaluate_eq_filter kinds d, ?_⟩
  · intro before p after hplaces hfault hbefore
    have hfirst : d.tree.root.places.find? (·.node.isFault) = some p := by
      rw [List.find?_eq_some_iff_append]
      exact ⟨hfault, before, after, hplaces, fun q hq => by rw [hbefore q hq]; rfl⟩
    rw [evaluate, firstError_eq hmarked, hfirst]
    rfl
  · intro hclean
    have hnone : d.tree.root.places.find? (·.node.isFault) = none := by
      rw [List.find?_eq_none]
      exact fun p hp => Bool.eq_false_iff.mp (hclean p hp)
    rw [evaluate, firstError_eq hmarked, hnone, ← findings_eq_report]
    rfl
  · intro htree fs hevaluate
    rw [evaluate] at hevaluate
    split at hevaluate
    · cases hevaluate
    · cases hevaluate
      exact pairwise_findings htree kinds

/-- An item in a module that stands in the body of another item. -/
def nestedDocument : Document where
  id := ⟨1#128⟩
  path := ⟨"src/lib.rs"⟩
  tree :=
    { text := "fn f() \x7b\n  mod m \x7b struct A; \x7d\n\x7d"
      parsed :=
        { root :=
            .mk { kind := "source_file", isNamed := true, span := ⟨0, 32⟩ }
              [.mk { kind := "function_item", isNamed := true, span := ⟨0, 32⟩ }
                [tokenNode "fn" false 0 2,
                  tokenNode "identifier" true 3 4,
                  .mk { kind := "parameters", isNamed := true, span := ⟨4, 6⟩ }
                    [tokenNode "(" false 4 5, tokenNode ")" false 5 6],
                  .mk { kind := "block", isNamed := true, span := ⟨7, 32⟩ }
                    [tokenNode "\x7b" false 7 8,
                      .mk { kind := "mod_item", isNamed := true, span := ⟨11, 30⟩ }
                        [tokenNode "mod" false 11 14,
                          tokenNode "identifier" true 15 16,
                          .mk { kind := "declaration_list", isNamed := true, span := ⟨17, 30⟩ }
                            [tokenNode "\x7b" false 17 18,
                              .mk { kind := "struct_item", isNamed := true, span := ⟨19, 28⟩ }
                                [tokenNode "struct" false 19 25,
                                  tokenNode "type_identifier" true 26 27,
                                  tokenNode ";" false 27 28],
                              tokenNode "\x7d" false 29 30]],
                      tokenNode "\x7d" false 31 32]]]
          hasErrors := false } }

theorem keywordsLead_nestedDocument : KeywordsLead nestedDocument.tree.root where
  nested := by
    rw [Node.Nested]
    decide +kernel
  token := by
    have hall : ∀ p ∈ nestedDocument.tree.root.places, ∀ kind ∈ ItemKind.all,
        p.node.kind = kind.nodeKind → ∀ k ∈ keyword? p.node kind,
          k.span.start < k.span.stop := by
      decide +kernel
    exact fun p hp kind => hall p hp kind kind.mem_all
  leads := by
    have hall : ∀ p ∈ nestedDocument.tree.root.places, ∀ a ∈ p.above, ∀ kind ∈ ItemKind.all,
        ∀ outer ∈ ItemKind.all, p.node.kind = kind.nodeKind → a.kind = outer.nodeKind →
          ∀ k ∈ keyword? a outer, k.span.stop ≤ p.node.span.start := by
      decide +kernel
    exact fun p hp a ha kind outer => hall p hp a ha kind kind.mem_all outer outer.mem_all

theorem evaluate_reports_nested :
    (nestedDocument.tree.hasErrors = true ↔
      ∃ p ∈ nestedDocument.tree.root.places, p.node.isFault = true) ∧
    KeywordsLead nestedDocument.tree.root ∧
    ∃ fs, evaluate [.function, .struct] nestedDocument = .ok fs ∧
      fs.map (fun f => (f.item, f.span, f.position)) =
        [(.function, ⟨0, 2⟩, ⟨1, 1⟩), (.struct, ⟨19, 25⟩, ⟨2, 11⟩)] ∧
      fs.Pairwise fun f g => f.span.start < g.span.start ∧ f.span.stop ≤ g.span.start := by
  have hmarked : nestedDocument.tree.hasErrors = true ↔
      ∃ p ∈ nestedDocument.tree.root.places, p.node.isFault = true := by
    decide +kernel
  obtain ⟨-, hclean, -, hpairs⟩ := evaluate_reports [.function, .struct] nestedDocument hmarked
  have hevaluate := hclean (by decide +kernel)
  refine ⟨hmarked, keywordsLead_nestedDocument, _, hevaluate, ?_,
    hpairs keywordsLead_nestedDocument _ hevaluate⟩
  decide +kernel

end Visibility

end PubSweep
