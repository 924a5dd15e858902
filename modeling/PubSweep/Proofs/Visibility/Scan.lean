import Mathlib.Data.List.Basic
import PubSweep.Collection
import PubSweep.Proofs.Batch
import PubSweep.Proofs.Visibility.Resolution

/-!
What the rule and its proposers collect from documents.

Every finding of a document without faults leads to one edit of the fix, in front of the item
(`editsFor_collected`); a document with faults is one failure (`failures_scan`).
-/

namespace PubSweep

open Syntax

/-- The tree of a document is what the parser makes of its text. -/
def Document.ParsedBy (parser : Parser) (d : Document) : Prop := d.tree = parser.tree d.text

/-- Documents of different identities, each with the tree of its text. -/
structure Project.Regular (parser : Parser) (project : Project) : Prop where
  parsed : ∀ d ∈ project.documents, d.ParsedBy parser
  distinct : (project.documents.map Document.id).Nodup

/-- Of lists that belong to items with different keys, the key of an item picks its own. -/
theorem flatMap_ite_of_pairwise {α β κ : Type} [DecidableEq κ] {key : α → κ} {as : List α}
    (h : as.Pairwise fun a b => key a ≠ key b) {a : α} (ha : a ∈ as) (f : α → List β) :
    (as.flatMap fun b => if key b = key a then f b else []) = f a := by
  induction as with
  | nil => cases ha
  | cons b as ih =>
      obtain ⟨hfirst, hrest⟩ := List.pairwise_cons.mp h
      rw [List.flatMap_cons]
      rcases List.mem_cons.mp ha with rfl | ha
      · have hothers : (as.flatMap fun b => if key b = key a then f b else []) = [] := by
          rw [List.flatMap_eq_nil_iff]
          intro b hb
          rw [if_neg (Ne.symm (hfirst b hb))]
        rw [if_pos rfl, hothers, List.append_nil]
      · rw [if_neg (hfirst a ha), List.nil_append]
        exact ih hrest ha

namespace Document.ParsedBy

variable {parser : Parser} {d : Document}

theorem shaped (hparser : parser.WellFormed) (hd : d.ParsedBy parser)
    (hclean : d.tree.hasErrors = false) : d.tree.root.Shaped d.tree.text.toList := by
  rw [Document.ParsedBy] at hd
  rw [hd] at hclean ⊢
  exact hparser.shaped d.text hclean

/-- A document has no faults and a well-formed tree, or a first fault. -/
theorem clean_or_faulty (hparser : parser.WellFormed) (hd : d.ParsedBy parser) :
    (d.tree.hasErrors = false ∧ d.tree.root.Shaped d.tree.text.toList) ∨
      (d.tree.hasErrors = true ∧ ∃ position, d.tree.firstError = some position) := by
  cases herrors : d.tree.hasErrors with
  | false => exact Or.inl ⟨rfl, hd.shaped hparser herrors⟩
  | true =>
      rw [Document.ParsedBy] at hd
      rw [hd] at herrors ⊢
      exact Or.inr ⟨rfl, SyntaxTree.exists_firstError hparser herrors⟩

end Document.ParsedBy

namespace Visibility

/-- The edits of a fix for the items of a document that lack a visibility, in the order of the
text. -/
def itemEdits (kinds : List ItemKind) (fix : FixId) (d : Document) : List Edit :=
  d.tree.root.places.filterMap fun p => (checkAt kinds d p).map fun f =>
    .ofFinding (.empty p.node.span.start) (fix.token ++ " ") fix f

/-- The edits that are collected from a document: none if it has faults. -/
def acceptedEdits (kinds : List ItemKind) (fix : FixId) (d : Document) : List Edit :=
  if d.tree.hasErrors then [] else itemEdits kinds fix d

/-- The failure of a document with faults. -/
def malformedFailure (project : String) (d : Document) : Option Failure :=
  d.tree.firstError.map fun position =>
    .ofDocument project d.path .ruleEvaluationFailed
      (RuleError.malformedTree d.path position).message (some position)

variable {kinds : List ItemKind} {fix : FixId} {d : Document}

/-- One edit for each item, at the start of the item. -/
theorem map_start_itemEdits (kinds : List ItemKind) (fix : FixId) (d : Document) :
    (itemEdits kinds fix d).map (·.span.start) = anchors kinds d.tree.root := by
  rw [itemEdits, anchors, offenders]
  induction d.tree.root.places with
  | nil => rfl
  | cons p ps ih =>
      by_cases hoff : Offends kinds p
      · obtain ⟨f, hf⟩ := Option.isSome_iff_exists.mp (isSome_checkAt_iff.mpr hoff)
        rw [List.filterMap_cons, List.filter_cons, if_pos (decide_eq_true hoff), hf,
          List.map_cons, ← ih]
        rfl
      · have hnone : checkAt kinds d p = none := by
          rw [← Option.not_isSome_iff_eq_none, isSome_checkAt_iff]
          exact hoff
        rw [List.filterMap_cons, List.filter_cons, if_neg (by simpa using hoff), hnone]
        exact ih

/-- There are as many edits as findings. -/
theorem length_itemEdits (kinds : List ItemKind) (fix : FixId) (d : Document) :
    (itemEdits kinds fix d).length = (findings kinds d).length := by
  rw [itemEdits, findings_eq]
  induction d.tree.root.places with
  | nil => rfl
  | cons p ps ih => cases hf : checkAt kinds d p <;> simp [hf, ih]

theorem length_findings (kinds : List ItemKind) (d : Document) :
    (findings kinds d).length = (anchors kinds d.tree.root).length := by
  rw [← length_itemEdits kinds .makePub d, ← map_start_itemEdits kinds .makePub d, List.length_map]

theorem mem_itemEdits {e : Edit} (he : e ∈ itemEdits kinds fix d) :
    e.span = .empty e.span.start ∧ e.replacement = fix.token ++ " " := by
  obtain ⟨p, -, hp⟩ := List.mem_filterMap.mp he
  obtain ⟨f, -, rfl⟩ := Option.map_eq_some_iff.mp hp
  exact ⟨rfl, rfl⟩

/-! ### One document -/

/-- Each proposer makes its edit for a finding. -/
theorem proposalsFor_of_checkAt (hshape : d.tree.root.Shaped d.tree.text.toList) {p : Place}
    (hp : p ∈ d.tree.root.places) {f : Finding} (hf : checkAt kinds d p = some f) :
    proposalsFor proposers d f = FixId.all.map fun other =>
      .ofFinding (.empty p.node.span.start) (other.token ++ " ") other f := by
  have htree := SyntaxTree.tokenized_of_shaped hshape
  simp [proposalsFor, proposers, FixId.all, proposer, propose_of_checkAt htree hp hf,
    Except.toOption]

/-- Of the edits proposed for the findings at some places, those of the fix are one for each. -/
theorem filter_proposals_of_places (hshape : d.tree.root.Shaped d.tree.text.toList) (fix : FixId)
    (id : DocumentId) {ps : List Place} (hps : ps ⊆ d.tree.root.places) :
    ((ps.filterMap (checkAt kinds d)).flatMap (proposalsFor proposers d)).filter
        (fun e => e.fix = fix ∧ e.document = id) =
      if d.id = id then ps.filterMap fun p => (checkAt kinds d p).map fun f =>
        .ofFinding (.empty p.node.span.start) (fix.token ++ " ") fix f
      else [] := by
  induction ps with
  | nil => simp
  | cons p ps ih =>
      have htail := ih fun q hq => hps (List.mem_cons_of_mem p hq)
      cases hf : checkAt kinds d p with
      | none => simpa [hf] using htail
      | some f =>
          have hproposals := proposalsFor_of_checkAt hshape (hps List.mem_cons_self) hf
          have hdocument : f.document = d.id := (checkAt_eq_some hf).2.1
          rw [List.filterMap_cons_some hf, List.flatMap_cons, List.filter_append, htail, hproposals]
          by_cases hid : d.id = id
          · cases fix <;> simp [FixId.all, Edit.ofFinding, hdocument, hid, hf]
          · simp [FixId.all, Edit.ofFinding, hdocument, hid]

/-- No finding of the rule is refused by a proposer. -/
theorem firstRefusal_eq_none (hshape : d.tree.root.Shaped d.tree.text.toList) (fix : FixId)
    {f : Finding} (hf : f ∈ findings kinds d) : firstRefusal proposers fix d f = none := by
  rw [findings_eq] at hf
  obtain ⟨p, hp, hcheck⟩ := List.mem_filterMap.mp hf
  rw [firstRefusal, List.findSome?_eq_none_iff]
  intro q hq
  obtain ⟨other, -, rfl⟩ := List.mem_map.mp hq
  have hpropose :=
    propose_of_checkAt (SyntaxTree.tokenized_of_shaped hshape) hp hcheck other
  simp [proposer, hpropose]

/-- A document without faults gives its findings, and no failures. -/
theorem scanDocument_of_clean (project : String)
    (hshape : d.tree.root.Shaped d.tree.text.toList) (hclean : d.tree.hasErrors = false) :
    scanDocument project (rule kinds) proposers fix d =
      { findings := findings kinds d
        edits := (findings kinds d).flatMap (proposalsFor proposers d)
        failures := [] } := by
  have hevaluate : (rule kinds).evaluate d = .ok (findings kinds d) := by
    simp [rule, evaluate, SyntaxTree.firstError_eq_none hclean]
  have hfailures : ((findings kinds d).filterMap fun f =>
      (firstRefusal proposers fix d f).map fun e => Failure.ofDocument project d.path
        .nodeNotFound e.message (some f.position)) = [] := by
    rw [List.filterMap_eq_nil_iff]
    intro f hf
    rw [firstRefusal_eq_none hshape fix hf]
    rfl
  simp only [scanDocument, hevaluate, hfailures]

/-- A document with faults gives nothing but its failure. -/
theorem scanDocument_of_faulty (project : String) {position : Position}
    (hfault : d.tree.firstError = some position) :
    scanDocument project (rule kinds) proposers fix d =
      { failures := (malformedFailure project d).toList } := by
  have hevaluate : (rule kinds).evaluate d = .error (.malformedTree d.path position) := by
    simp [rule, evaluate, hfault]
  simp [scanDocument, hevaluate, malformedFailure, hfault, RuleError.position]

variable {parser : Parser}

/-- The failures of a document are its syntax error, if it has one. -/
theorem failures_scan (hparser : parser.WellFormed) (hd : d.ParsedBy parser) (project : String) :
    (scanDocument project (rule kinds) proposers fix d).failures =
      (malformedFailure project d).toList := by
  rcases hd.clean_or_faulty hparser with ⟨hclean, hshape⟩ | ⟨-, position, hposition⟩
  · rw [scanDocument_of_clean project hshape hclean, malformedFailure,
      SyntaxTree.firstError_eq_none hclean]
    rfl
  · rw [scanDocument_of_faulty project hposition]

theorem findings_scan (hparser : parser.WellFormed) (hd : d.ParsedBy parser) (project : String) :
    (scanDocument project (rule kinds) proposers fix d).findings =
      if d.tree.hasErrors then [] else findings kinds d := by
  rcases hd.clean_or_faulty hparser with ⟨hclean, hshape⟩ | ⟨hfaulty, position, hposition⟩
  · rw [scanDocument_of_clean project hshape hclean, hclean]
    rfl
  · rw [scanDocument_of_faulty project hposition, hfaulty]
    rfl

/-- The edits of the fix that a document gives, told apart by their document. -/
theorem filter_edits_scan (hparser : parser.WellFormed) (hd : d.ParsedBy parser)
    (project : String) (id : DocumentId) :
    (scanDocument project (rule kinds) proposers fix d).edits.filter
        (fun e => e.fix = fix ∧ e.document = id) =
      if d.id = id then acceptedEdits kinds fix d else [] := by
  rcases hd.clean_or_faulty hparser with ⟨hclean, hshape⟩ | ⟨hfaulty, position, hposition⟩
  · rw [scanDocument_of_clean project hshape hclean, findings_eq, acceptedEdits, hclean]
    exact filter_proposals_of_places hshape fix id fun _ hp => hp
  · rw [scanDocument_of_faulty project hposition, acceptedEdits, hfaulty]
    simp

/-- Without findings there are no edits. -/
theorem edits_scan_eq_nil {r : Rule} {proposers : List Proposer} {project : String}
    (h : (scanDocument project r proposers fix d).findings = []) :
    (scanDocument project r proposers fix d).edits = [] := by
  rw [scanDocument] at h ⊢
  split at h
  · rfl
  · have hnone : _ = [] := h
    subst hnone
    rfl

/-! ### All documents of a project -/

/-- What the rule and its proposers collect from a project. -/
def collected (kinds : List ItemKind) (ruleId : RuleId) (fix : FixId) (project : Project) :
    Collection :=
  .ofScans ruleId fix
    (project.documents.map (scanDocument project.name (rule kinds) proposers fix))

/-- The collector of the rule always gets to scan the documents of a project. -/
theorem collect_standard (kinds : List ItemKind) (project : Project) (ruleId : RuleId)
    (fix : FixId) :
    (Collector.standard kinds).collect project ruleId fix (fun _ => false) =
      .ok (collected kinds ruleId fix project) := by
  cases ruleId
  cases fix <;>
    simp [Collector.collect, Collector.standard, rule, FixId.rule, proposers, proposer,
      FixId.all, Proposer.rule, collected]

variable {project : Project}

/-- A document gets its own edits, and no others. -/
theorem editsFor_collected (kinds : List ItemKind) (ruleId : RuleId) (fix : FixId)
    (hparser : parser.WellFormed) (hproject : project.Regular parser)
    (hd : d ∈ project.documents) :
    (collected kinds ruleId fix project).batch.editsFor d.id = acceptedEdits kinds fix d := by
  change ((⟨ruleId, fix, []⟩ : FixBatch).acceptAll ((project.documents.map
    (scanDocument project.name (rule kinds) proposers fix)).flatMap (·.edits))).editsFor d.id = _
  rw [FixBatch.editsFor_new, List.flatMap_map, List.filter_flatMap,
    ← flatMap_ite_of_pairwise (List.pairwise_map.mp hproject.distinct) hd
      (acceptedEdits kinds fix)]
  apply List.flatMap_congr
  intro other hother
  exact filter_edits_scan hparser (hproject.parsed other hother) project.name d.id

/-- The findings of a project are those of its documents without faults. -/
theorem findings_collected (kinds : List ItemKind) (ruleId : RuleId) (fix : FixId)
    (hparser : parser.WellFormed) (hproject : project.Regular parser) :
    (collected kinds ruleId fix project).findings =
      project.documents.flatMap fun d => if d.tree.hasErrors then [] else findings kinds d := by
  change (project.documents.map
    (scanDocument project.name (rule kinds) proposers fix)).flatMap (·.findings) = _
  rw [List.flatMap_map]
  apply List.flatMap_congr
  intro d hd
  exact findings_scan hparser (hproject.parsed d hd) project.name

/-- The failures of a project are its documents with faults. -/
theorem failures_collected (kinds : List ItemKind) (ruleId : RuleId) (fix : FixId)
    (hparser : parser.WellFormed) (hproject : project.Regular parser) :
    (collected kinds ruleId fix project).failures =
      project.documents.filterMap (malformedFailure project.name) := by
  change (project.documents.map
    (scanDocument project.name (rule kinds) proposers fix)).flatMap (·.failures) = _
  rw [List.flatMap_map, List.filterMap_eq_flatMap_toList]
  apply List.flatMap_congr
  intro d hd
  exact failures_scan hparser (hproject.parsed d hd) project.name

/-- A project without findings has no edits. -/
theorem batch_size_of_findings_eq_nil (ruleId : RuleId)
    (h : (collected kinds ruleId fix project).findings = []) :
    (collected kinds ruleId fix project).batch.size = 0 := by
  have hedits : (project.documents.map
      (scanDocument project.name (rule kinds) proposers fix)).flatMap (·.edits) = [] := by
    rw [List.flatMap_eq_nil_iff]
    intro scan hscan
    obtain ⟨d, -, rfl⟩ := List.mem_map.mp hscan
    exact edits_scan_eq_nil (List.flatMap_eq_nil_iff.mp h _ hscan)
  change (FixBatch.size (List.foldl _ _ _)) = 0
  rw [hedits]
  rfl

end Visibility

end PubSweep
