import PubSweep.Proofs.Visibility.Correction
import PubSweep.Proofs.Visibility.FileParser

/-!
Items given their visibility one at a time.

In each round the text is parsed and checked anew, and only the first of the edits is made.  After
some rounds the text is the given one with its first items corrected (`rounds_append`), so the
rounds end with the text that the whole batch gives.
-/

namespace PubSweep.Visibility

open Syntax

/-- Where a text belongs. -/
structure Location where
  project : String
  root : Path
  path : Path
deriving Inhabited

section

variable (parser : Parser) (kinds : List ItemKind) (ruleId : RuleId) (fix : FixId)
  (home : Location)

/-- The project whose only document has a text. -/
def soleProject (text : String) : Project :=
  ⟨home.project, home.root, [.parse parser home.project home.path text]⟩

/-- The first edit that is collected from a text. -/
def firstEdit? (text : String) : Option Edit :=
  match (Collector.standard kinds).collect (soleProject parser home text) ruleId fix
    fun _ => false with
  | .ok collection => (collection.batch.editsFor (.ofPath home.project home.path)).head?
  | .error _ => none

/-- Rounds that each make the first edit, up to a text without edits, and their number. -/
inductive Rounds : String → Nat → String → Prop
  | stop {text : String} (hnone : firstEdit? parser kinds ruleId fix home text = none) :
      Rounds text 0 text
  | round {text final : String} {n : Nat} {e : Edit} {cs : List Char}
      (hedit : firstEdit? parser kinds ruleId fix home text = some e)
      (hsplice : Text.splice e.span e.replacement.toList text.toList = .ok cs)
      (hrest : Rounds (String.ofList cs) n final) : Rounds text (n + 1) final

end

variable {parser : Parser} {kinds : List ItemKind} {ruleId : RuleId} {fix : FixId}
  {home : Location}

theorem regular_soleProject (parser : Parser) (home : Location) (text : String) :
    (soleProject parser home text).Regular parser := by
  refine ⟨?_, List.pairwise_singleton _ _⟩
  intro d hd
  rw [List.mem_singleton.mp hd]
  rfl

/-- Rounds end in one way only. -/
theorem Rounds.unique {text final final' : String} {n n' : Nat}
    (h : Rounds parser kinds ruleId fix home text n final)
    (h' : Rounds parser kinds ruleId fix home text n' final') : n = n' ∧ final = final' := by
  induction h generalizing n' with
  | stop hnone =>
      cases h' with
      | stop => exact ⟨rfl, rfl⟩
      | round hedit =>
          rw [hnone] at hedit
          cases hedit
  | round hedit hsplice _ ih =>
      cases h' with
      | stop hnone =>
          rw [hedit] at hnone
          cases hnone
      | round hedit' hsplice' hrest' =>
          rw [hedit] at hedit'
          cases hedit'
          rw [hsplice] at hsplice'
          cases hsplice'
          obtain ⟨hn, hfinal⟩ := ih hrest'
          exact ⟨by rw [hn], hfinal⟩

theorem firstEdit?_of_clean (hparser : parser.WellFormed) {text : String}
    (hclean : (parser.tree text).hasErrors = false) :
    firstEdit? parser kinds ruleId fix home text =
      (itemEdits kinds fix (.parse parser home.project home.path text)).head? := by
  have hedits := editsFor_collected kinds ruleId fix hparser (regular_soleProject parser home text)
    List.mem_cons_self
  rw [acceptedEdits, if_neg (by rw [Document.parse, hclean]; decide)] at hedits
  rw [firstEdit?, collect_standard, ← hedits]
  rfl

/-- The first edit puts the token in at the first anchor. -/
theorem firstEdit?_eq_some (ruleId : RuleId) (fix : FixId) (home : Location)
    (hparser : parser.WellFormed) {text : String}
    (hclean : (parser.tree text).hasErrors = false) {offset : Nat} {rest : List Nat}
    (hanchors : anchors kinds (parser.tree text).root = offset :: rest) :
    ∃ e, firstEdit? parser kinds ruleId fix home text = some e ∧ e.span = .empty offset ∧
      e.replacement.toList = insertion fix := by
  rw [firstEdit?_of_clean hparser hclean]
  have hstarts := map_start_itemEdits kinds fix (.parse parser home.project home.path text)
  rw [show anchors kinds (Document.parse parser home.project home.path text).tree.root =
    offset :: rest from hanchors] at hstarts
  obtain ⟨e, es, hedits, hstart, -⟩ := List.map_eq_cons_iff.mp hstarts
  have he : e ∈ itemEdits kinds fix (.parse parser home.project home.path text) := by
    rw [hedits]
    exact List.mem_cons_self
  obtain ⟨hspan, htoken⟩ := mem_itemEdits he
  refine ⟨e, by rw [hedits]; rfl, by rw [hspan, hstart], by rw [htoken]; rfl⟩

theorem firstEdit?_eq_none (hparser : parser.WellFormed) {text : String}
    (hclean : (parser.tree text).hasErrors = false)
    (hanchors : anchors kinds (parser.tree text).root = []) :
    firstEdit? parser kinds ruleId fix home text = none := by
  have hstarts := map_start_itemEdits kinds fix (.parse parser home.project home.path text)
  rw [show anchors kinds (Document.parse parser home.project home.path text).tree.root = []
    from hanchors, List.map_eq_nil_iff] at hstarts
  rw [firstEdit?_of_clean hparser hclean, hstarts]
  rfl

section

variable {text : String} {done left : List Nat}

/-- What the parser makes of a text whose first items have been corrected: the anchors of the others
have moved by the tokens before them. -/
theorem anchors_withVisibility (hparser : parser.WellFormed) (hreads : ReadsVisibility parser)
    (hclean : (parser.tree text).hasErrors = false)
    (hanchors : anchors kinds (parser.tree text).root = done ++ left) (fix : FixId) :
    (parser.tree (withVisibility fix done text)).hasErrors = false ∧
      anchors kinds (parser.tree (withVisibility fix done text)).root = left.map fun offset =>
        offset + Text.byteLength (insertion fix) * done.countP (· < offset) := by
  have hshape := hparser.shaped text hclean
  have hsublist : done.Sublist (anchors kinds (parser.tree text).root) := by
    rw [hanchors]
    exact List.sublist_append_left done left
  have hparse := hreads text fix done hclean
    (hsublist.trans (anchors_sublist_all kinds (parser.tree text).root))
  have hnodup : (done ++ left).Nodup := hanchors ▸ nodup_anchors kinds hshape
  have hleft : (anchors kinds (parser.parse text).root).filter (· ∉ done) = left := by
    change (anchors kinds (parser.tree text).root).filter (· ∉ done) = left
    have hnew : ∀ m ∈ left, m ∉ done := by
      intro m hm hdone
      exact (List.nodup_append.mp hnodup).2.2 m hdone m hm rfl
    rw [hanchors, List.filter_append, List.filter_eq_nil_iff.mpr (by simp),
      List.filter_eq_self.mpr (by simpa using hnew), List.nil_append]
  constructor
  · rw [SyntaxTree.hasErrors, Parser.tree, hparse]
  · rw [SyntaxTree.root, Parser.tree, hparse, anchors_publish kinds fix done hshape, hleft]

/-- One round corrects the next item. -/
theorem splice_withVisibility (hparser : parser.WellFormed)
    (hclean : (parser.tree text).hasErrors = false) {offset : Nat}
    (hanchors : anchors kinds (parser.tree text).root = done ++ offset :: left) (fix : FixId) :
    Text.splice (.empty (offset + Text.byteLength (insertion fix) * done.countP (· < offset)))
        (insertion fix) (withVisibility fix done text).toList =
      .ok (withVisibility fix (done ++ [offset]) text).toList := by
  have hshape := hparser.shaped text hclean
  have hnodup : (done ++ offset :: left).Nodup := hanchors ▸ nodup_anchors kinds hshape
  have hparts := List.nodup_append.mp hnodup
  have hboundary : ∀ m ∈ done ++ offset :: left, Text.isBoundary m text.toList = true := by
    rw [← hanchors]
    exact fun m hm => isBoundary_of_mem_anchors hshape hm
  have hoffset : offset ∈ offset :: left := List.mem_cons_self
  have hsplice := @Text.splice_insertAt (insertion fix) done hparts.1 text.toList
    (fun m hm => hboundary m (List.mem_append_left _ hm)) offset
    (hboundary offset (List.mem_append_right _ hoffset))
    (fun hdone => hparts.2.2 offset hdone offset hoffset rfl)
  have hmarks : Text.insertAt (offset :: done) (insertion fix) 0 text.toList =
      Text.insertAt (done ++ [offset]) (insertion fix) 0 text.toList := by
    apply Text.insertAt_congr
    intro m _
    simp [or_comm]
  rw [withVisibility, withVisibility, String.toList_ofList, String.toList_ofList, hsplice, hmarks]

/-- The rounds that are left when the first items have been corrected. -/
theorem rounds_append (hparser : parser.WellFormed) (hreads : ReadsVisibility parser)
    (hclean : (parser.tree text).hasErrors = false)
    (hanchors : anchors kinds (parser.tree text).root = done ++ left) :
    Rounds parser kinds ruleId fix home (withVisibility fix done text) left.length
      (withVisibility fix (done ++ left) text) := by
  induction left generalizing done with
  | nil =>
      obtain ⟨hfine, hnone⟩ := anchors_withVisibility hparser hreads hclean hanchors fix
      rw [List.append_nil]
      exact .stop (firstEdit?_eq_none hparser hfine hnone)
  | cons offset left ih =>
      obtain ⟨hfine, hnext⟩ := anchors_withVisibility hparser hreads hclean hanchors fix
      obtain ⟨e, hedit, hspan, htoken⟩ := firstEdit?_eq_some ruleId fix home hparser hfine hnext
      have hstep := splice_withVisibility hparser hclean hanchors fix
      rw [List.append_cons]
      refine .round hedit (by rw [hspan, htoken]; exact hstep) ?_
      rw [String.ofList_toList]
      exact ih (by rw [hanchors, List.append_assoc]; rfl)

end

/-- A text without faults whose items are corrected one at a time, with a new parse in between.  The
rounds stop after as many as the text has findings, and with the text that the whole batch gives. -/
theorem rounds_iff_batch (hparser : parser.WellFormed) (hreads : ReadsVisibility parser)
    (text : String) (hclean : (parser.tree text).hasErrors = false) (kinds : List ItemKind)
    (ruleId : RuleId) (fix : FixId) (home : Location) :
    ∃ collection applied final,
      (Collector.standard kinds).collect (soleProject parser home text) ruleId fix
        (fun _ => false) = .ok collection ∧
      applyBatch parser (soleProject parser home text) collection.batch (fun _ => false) =
        some applied ∧
      applied.project.documents.map Document.text = [final] ∧
      ∀ n last, Rounds parser kinds ruleId fix home text n last ↔
        n = collection.findings.length ∧ last = final := by
  have hregular := regular_soleProject parser home text
  have hparsed := hregular.parsed _ List.mem_cons_self
  have hfinal : (corrected parser kinds fix (.parse parser home.project home.path text)).text =
      withVisibility fix (anchors kinds (parser.tree text).root) text := by
    rw [Document.text, tree_corrected hreads hparsed hclean]
    rfl
  have hfindings : (collected kinds ruleId fix (soleProject parser home text)).findings.length =
      (anchors kinds (parser.tree text).root).length := by
    have hdirty : ¬ (Document.parse parser home.project home.path text).tree.hasErrors = true := by
      rw [Document.parse, hclean]
      decide
    rw [findings_collected kinds ruleId fix hparser hregular, soleProject, List.flatMap_singleton,
      if_neg hdirty, length_findings]
    rfl
  have hrounds : Rounds parser kinds ruleId fix home (withVisibility fix [] text)
      (anchors kinds (parser.tree text).root).length
      (withVisibility fix ([] ++ anchors kinds (parser.tree text).root) text) :=
    rounds_append hparser hreads hclean rfl
  rw [withVisibility_nil, List.nil_append] at hrounds
  refine ⟨_, _, _, collect_standard kinds _ ruleId fix,
    applyBatch_collected kinds ruleId fix hparser hregular,
    congrArg (fun t => [t]) hfinal, ?_⟩
  intro n last
  rw [hfindings]
  constructor
  · intro h
    exact h.unique hrounds
  · rintro ⟨rfl, rfl⟩
    exact hrounds

theorem rounds_iff_batch_nested :
    Rounds nestedParser ItemKind.all .missingVisibility .makePub default nestedText 3
      "pub fn f()\x7bmod m\x7bpub struct A;\x7d\x7dpub struct B;" := by
  obtain ⟨collection, applied, final, hcollect, happly, hfinal, hrounds⟩ := rounds_iff_batch
    nestedParser_wellFormed nestedParser_readsVisibility nestedText (by decide +kernel)
    ItemKind.all .missingVisibility .makePub default
  rw [collect_standard, Except.ok.injEq] at hcollect
  subst hcollect
  rw [applyBatch_collected _ _ _ nestedParser_wellFormed (regular_soleProject _ _ _),
    Option.some.injEq] at happly
  subst happly
  refine (hrounds _ _).mpr ⟨by decide +kernel, ?_⟩
  have htext : [final] = ["pub fn f()\x7bmod m\x7bpub struct A;\x7d\x7dpub struct B;"] := by
    rw [← hfinal]
    decide +kernel
  exact (List.singleton_inj.mp htext).symm

end PubSweep.Visibility
