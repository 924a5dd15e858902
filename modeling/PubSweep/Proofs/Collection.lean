import Mathlib.Data.List.Basic
import PubSweep.Proofs.Pass.Cancellation
import PubSweep.Proofs.Visibility.FileParser

/-!
What becomes of the findings of a project.

A collection accounts for all of them (`Collection.Accounts`): each finding has led to an edit in
the batch, or stands in the list of failures.  `Collector.collect_accounts` says that this holds of
whatever a collector gives, for all rules and proposers.
-/

namespace PubSweep

/-! ### One document -/

/-- The findings of a rule in a document; none if the rule cannot be evaluated there. -/
def Rule.findingsIn (r : Rule) (d : Document) : List Finding :=
  match r.evaluate d with
  | .ok findings => findings
  | .error _ => []

/-- The edits that some proposers make for the findings in a document, in the order of the findings
and, for each of them, of the proposers. -/
def Rule.editsIn (r : Rule) (proposers : List Proposer) (d : Document) : List Edit :=
  (r.findingsIn d).flatMap (proposalsFor proposers d)

/-- The errors of proposers that make no edit for a finding. -/
def refusalsOf (proposers : List Proposer) (d : Document) (f : Finding) : List FixError :=
  proposers.filterMap fun p =>
    match p.propose d f with
    | .ok _ => none
    | .error e => some e

/-- The failure of a finding for which a proposer makes no edit: at the place of the finding, and
with the words of the first such proposer. -/
def findingFailure (project : String) (proposers : List Proposer) (d : Document) (f : Finding) :
    Option Failure :=
  (refusalsOf proposers d f).head?.map fun e =>
    { project
      path := d.path.text
      kind := .nodeNotFound
      message := e.message
      line := some f.position.line
      column := some f.position.column }

/-- The failures of a document: one if the rule cannot be evaluated, and else those of the
findings. -/
def Rule.failuresIn (r : Rule) (project : String) (proposers : List Proposer) (d : Document) :
    List Failure :=
  match r.evaluate d with
  | .ok findings => findings.filterMap (findingFailure project proposers d)
  | .error e =>
    [{ project
       path := d.path.text
       kind := .ruleEvaluationFailed
       message := e.message
       line := e.position.map (·.line)
       column := e.position.map (·.column) }]

/-- A proposer whose edits carry its own fix, and the finding for which they are made. -/
def Proposer.Faithful (p : Proposer) : Prop :=
  ∀ d f e, p.propose d f = .ok e → e.fix = p.fix ∧ e.finding = f

section

variable {proposers : List Proposer} {d : Document} {f : Finding}

theorem firstRefusal_eq_head? (proposers : List Proposer) (fix : FixId) (d : Document)
    (f : Finding) :
    firstRefusal proposers fix d f = (refusalsOf (proposers.filter (·.fix = fix)) d f).head? := by
  induction proposers with
  | nil => rfl
  | cons p proposers ih =>
      rw [firstRefusal] at ih ⊢
      rw [List.findSome?_cons]
      by_cases hfix : p.fix = fix
      · rw [List.filter_cons_of_pos (by simpa using hfix), refusalsOf, List.filterMap_cons,
          if_pos hfix]
        cases hpropose : p.propose d f with
        | ok e => exact ih
        | error e => rfl
      · rw [List.filter_cons_of_neg (by simpa using hfix), if_neg hfix]
        exact ih

/-- Of the edits that faithful proposers make, those of a fix are the ones of its proposers. -/
theorem filter_proposalsFor (hfaithful : ∀ p ∈ proposers, p.Faithful) (fix : FixId) (d : Document)
    (f : Finding) :
    (proposalsFor proposers d f).filter (·.fix = fix) =
      proposalsFor (proposers.filter (·.fix = fix)) d f := by
  rw [proposalsFor, proposalsFor, List.filter_filterMap, List.filterMap_filter]
  apply List.filterMap_congr
  intro p hp
  cases hpropose : p.propose d f with
  | error e => simp [Except.toOption]
  | ok e =>
      have hedit : e.fix = p.fix := (hfaithful p hp d f e hpropose).1
      simp [Except.toOption, Option.filter_some, hedit]

end

section

variable {r : Rule} {proposers : List Proposer} (project : String) (fix : FixId) (d : Document)

theorem findings_scanDocument :
    (scanDocument project r proposers fix d).findings = r.findingsIn d := by
  rw [scanDocument, Rule.findingsIn]
  cases r.evaluate d <;> rfl

theorem edits_scanDocument :
    (scanDocument project r proposers fix d).edits = r.editsIn proposers d := by
  rw [scanDocument, Rule.editsIn, Rule.findingsIn]
  cases r.evaluate d <;> rfl

theorem failures_scanDocument :
    (scanDocument project r proposers fix d).failures =
      r.failuresIn project (proposers.filter (·.fix = fix)) d := by
  rw [scanDocument, Rule.failuresIn]
  cases r.evaluate d with
  | error e => rfl
  | ok findings =>
      simp only [firstRefusal_eq_head?]
      rfl

theorem filter_editsIn (hfaithful : ∀ p ∈ proposers, p.Faithful) :
    (r.editsIn proposers d).filter (·.fix = fix) =
      r.editsIn (proposers.filter (·.fix = fix)) d := by
  rw [Rule.editsIn, Rule.editsIn, List.filter_flatMap]
  simp only [filter_proposalsFor hfaithful]

end

/-! ### All documents of a project -/

/-- The proposers of a fix, in order. -/
def Collector.serving (c : Collector) (fix : FixId) : List Proposer :=
  c.proposers.filter (·.fix = fix)

/-- A collection that accounts for all findings of a rule in a project.  `serving` are the proposers
of the fix. -/
structure Collection.Accounts (r : Rule) (serving : List Proposer) (project : Project)
    (collection : Collection) : Prop where
  scanned : collection.documentsScanned = project.documents.length
  /-- The findings are those of the documents, in order. -/
  findings : collection.findings = project.documents.flatMap r.findingsIn
  /-- The batch holds, for each document, the edits of the proposers of the fix. -/
  edits : ∀ id, collection.batch.editsFor id =
    (project.documents.flatMap (r.editsIn serving)).filter (·.document = id)
  /-- The batch holds no other edits. -/
  size : collection.batch.size = (project.documents.flatMap (r.editsIn serving)).length
  /-- The failures are those of the documents, in order. -/
  failures : collection.failures =
    project.documents.flatMap (r.failuresIn project.name serving)
  /-- Each finding has led to an edit or to its failure. -/
  covered : ∀ d ∈ project.documents, ∀ f ∈ r.findingsIn d,
    (∃ e, e.finding = f ∧ e ∈ collection.batch.editsFor e.document) ∨
      ∃ failure, findingFailure project.name serving d f = some failure ∧
        failure ∈ collection.failures

section

variable {r : Rule} {proposers : List Proposer} {rule : RuleId} {fix : FixId} {project : Project}

/-- The edits in the batch of some scans are the edits of the fix that the documents gave. -/
theorem filter_edits_scans (hfaithful : ∀ p ∈ proposers, p.Faithful) :
    ((project.documents.map (scanDocument project.name r proposers fix)).flatMap
        (·.edits)).filter (·.fix = fix) =
      project.documents.flatMap (r.editsIn (proposers.filter (·.fix = fix))) := by
  rw [List.flatMap_map, List.filter_flatMap]
  simp only [edits_scanDocument, filter_editsIn _ _ hfaithful]

theorem editsFor_ofScans (scans : List DocumentScan) (id : DocumentId) :
    (Collection.ofScans rule fix scans).batch.editsFor id =
      ((scans.flatMap (·.edits)).filter (·.fix = fix)).filter (·.document = id) := by
  have hbatch := FixBatch.editsFor_new rule fix (scans.flatMap (·.edits)) id
  rw [List.filter_filter]
  refine hbatch.trans (List.filter_congr ?_)
  intro e _
  rw [Bool.decide_and, Bool.and_comm]

theorem size_ofScans (scans : List DocumentScan) :
    (Collection.ofScans rule fix scans).batch.size =
      ((scans.flatMap (·.edits)).filter (·.fix = fix)).length := by
  have hsize := FixBatch.size_acceptAll ⟨rule, fix, []⟩ (scans.flatMap (·.edits))
  rw [show (⟨rule, fix, []⟩ : FixBatch).size = 0 from rfl, Nat.zero_add] at hsize
  exact hsize

/-- With a proposer at hand, a finding gets an edit or is refused. -/
theorem exists_proposal_or_refusal {serving : List Proposer} (hserving : serving ≠ [])
    (name : String) (d : Document) (f : Finding) :
    (∃ p ∈ serving, ∃ e, p.propose d f = .ok e) ∨
      ∃ failure, findingFailure name serving d f = some failure := by
  obtain ⟨p, rest, rfl⟩ := List.exists_cons_of_ne_nil hserving
  cases hpropose : p.propose d f with
  | ok e => exact Or.inl ⟨p, List.mem_cons_self, e, hpropose⟩
  | error e =>
      right
      rw [findingFailure, refusalsOf, List.filterMap_cons, hpropose]
      exact ⟨_, rfl⟩

theorem mem_editsIn {d : Document} {f : Finding} (hf : f ∈ r.findingsIn d) {p : Proposer}
    (hp : p ∈ proposers) {e : Edit} (he : p.propose d f = .ok e) : e ∈ r.editsIn proposers d := by
  refine List.mem_flatMap.mpr ⟨f, hf, List.mem_filterMap.mpr ⟨p, hp, ?_⟩⟩
  rw [he]
  rfl

theorem mem_failuresIn {d : Document} {f : Finding} (hf : f ∈ r.findingsIn d) {name : String}
    {failure : Failure} (hfailure : findingFailure name proposers d f = some failure) :
    failure ∈ r.failuresIn name proposers d := by
  rw [Rule.findingsIn] at hf
  rw [Rule.failuresIn]
  split at hf
  · exact List.mem_filterMap.mpr ⟨f, hf, hfailure⟩
  · cases hf

/-- The scans of the documents of a project give a collection that accounts for all findings. -/
theorem accounts_ofScans (hfaithful : ∀ p ∈ proposers, p.Faithful)
    (hserving : proposers.filter (·.fix = fix) ≠ []) :
    (Collection.ofScans rule fix
      (project.documents.map (scanDocument project.name r proposers fix))).Accounts r
        (proposers.filter (·.fix = fix)) project := by
  have hedits : ∀ id, (Collection.ofScans rule fix (project.documents.map
      (scanDocument project.name r proposers fix))).batch.editsFor id =
        (project.documents.flatMap (r.editsIn (proposers.filter (·.fix = fix)))).filter
          (·.document = id) := by
    intro id
    rw [editsFor_ofScans, filter_edits_scans hfaithful]
  have hfailures : (Collection.ofScans rule fix (project.documents.map
      (scanDocument project.name r proposers fix))).failures =
        project.documents.flatMap
          (r.failuresIn project.name (proposers.filter (·.fix = fix))) := by
    simp only [Collection.ofScans, List.flatMap_map, failures_scanDocument]
  refine ⟨by simp [Collection.ofScans], ?_, hedits, ?_, hfailures, ?_⟩
  · simp only [Collection.ofScans, List.flatMap_map, findings_scanDocument]
  · rw [size_ofScans, filter_edits_scans hfaithful]
  · intro d hd f hf
    rcases exists_proposal_or_refusal hserving project.name d f with
      ⟨p, hp, e, he⟩ | ⟨failure, hfailure⟩
    · left
      have hmem := mem_editsIn hf hp he
      have hfinding := (hfaithful p (List.mem_filter.mp hp).1 d f e he).2
      refine ⟨e, hfinding, ?_⟩
      rw [hedits]
      exact List.mem_filter.mpr ⟨List.mem_flatMap.mpr ⟨d, hd, hmem⟩, by simp⟩
    · right
      refine ⟨failure, hfailure, ?_⟩
      rw [hfailures]
      exact List.mem_flatMap.mpr ⟨d, hd, mem_failuresIn hf hfailure⟩

end

namespace Collector

variable {c : Collector} {rule : RuleId} {fix : FixId}

/-- There is one rule only, and all fixes serve it. -/
theorem rule_eq (fix : FixId) (rule : RuleId) : fix.rule = rule := rfl

theorem filter_rule_proposers (c : Collector) (rule : RuleId) :
    c.proposers.filter (·.rule = rule) = c.proposers :=
  List.filter_eq_self.mpr fun p _ => decide_eq_true (rule_eq p.fix rule)

theorem refusal_of_unregistered (h : ∀ r ∈ c.rules, r.id ≠ rule) :
    c.refusal rule fix = some (.unknownRule rule) := by
  have hfind : c.rules.find? (·.id = rule) = none :=
    List.find?_eq_none.mpr fun r hr => by simpa using h r hr
  rw [refusal, hfind]

theorem refusal_of_registered (h : ∃ r ∈ c.rules, r.id = rule) :
    c.refusal rule fix = if c.serving fix = [] then some (.noProposer fix) else none := by
  obtain ⟨r, hr, hid⟩ := h
  have hsome : (c.rules.find? (·.id = rule)).isSome = true :=
    List.find?_isSome.mpr ⟨r, hr, decide_eq_true hid⟩
  obtain ⟨found, hfind⟩ := Option.isSome_iff_exists.mp hsome
  have hany : (!(c.proposers.filter (·.rule = rule)).any (·.fix = fix)) = true ↔
      c.serving fix = [] := by
    rw [filter_rule_proposers, serving, List.filter_eq_nil_iff, Bool.not_eq_true',
      List.any_eq_false]
  rw [refusal, hfind]
  change (if fix.rule ≠ rule then _ else _) = _
  rw [if_neg (not_not.mpr (rule_eq fix rule))]
  exact if_congr hany rfl rfl

/-- What a collector gives accounts for all findings of the rule, unless it is interrupted.  A rule
that is not registered and a fix without a proposer are errors, whatever the project holds and
wherever the collector would be interrupted. -/
theorem collect_accounts (c : Collector) (hfaithful : ∀ p ∈ c.proposers, p.Faithful)
    (rule : RuleId) (fix : FixId) :
    ((∀ r ∈ c.rules, r.id ≠ rule) → ∀ project interrupted,
      c.collect project rule fix interrupted = .error (.unknownRule rule)) ∧
    ((∃ r ∈ c.rules, r.id = rule) → c.serving fix = [] → ∀ project interrupted,
      c.collect project rule fix interrupted = .error (.noProposer fix)) ∧
    ((∃ r ∈ c.rules, r.id = rule) → c.serving fix ≠ [] →
      ∃ r, c.rules.find? (·.id = rule) = some r ∧ ∀ project, ∃ collection : Collection,
        collection.Accounts r (c.serving fix) project ∧
        ∀ interrupted, c.collect project rule fix interrupted =
          if (List.range project.documents.length).any interrupted then .error .cancelled
          else .ok collection) := by
  refine ⟨?_, ?_, ?_⟩
  · intro hrule project interrupted
    exact (collect_of_refusal (refusal_of_unregistered hrule) project interrupted).1
  · intro hrule hserving project interrupted
    have hrefusal := @refusal_of_registered c rule fix hrule
    rw [if_pos hserving] at hrefusal
    exact (collect_of_refusal hrefusal project interrupted).1
  · intro hrule hserving
    have hrefusal := @refusal_of_registered c rule fix hrule
    rw [if_neg hserving] at hrefusal
    obtain ⟨r, hr, hcollect⟩ := collect_of_refusal_eq_none hrefusal
    refine ⟨r, hr, ?_⟩
    intro project
    refine ⟨_, ?_, hcollect project⟩
    rw [filter_rule_proposers]
    exact accounts_ofScans hfaithful hserving

end Collector

/-! ### A rule, a proposer and two that refuse -/

theorem Visibility.faithful_proposer (fix : FixId) : (proposer fix).Faithful := by
  intro d f e h
  simp only [proposer, propose] at h
  split at h
  · cases h
  · split at h
    · cases h
    · split at h
      · cases h
      · rw [← Except.ok.inj h]
        exact ⟨rfl, rfl⟩

/-- A proposer that never makes an edit. -/
def refuser (fix : FixId) : Proposer where
  fix := fix
  propose d f := .error (.nodeNotFound d.path f.span)

theorem faithful_refuser (fix : FixId) : (refuser fix).Faithful := by
  intro d f e h
  cases h

/-- The rule, its proposer for one fix, and one that refuses for each fix. -/
def refusingCollector : Collector where
  rules := [Visibility.rule ItemKind.all]
  proposers := [Visibility.proposer .makePub, refuser .makePub, refuser .makePubCrate]

/-- A file with one item that lacks its visibility, and a file with a syntax error. -/
def halfFaultyProject : Project where
  name := "demo"
  root := ⟨"/demo"⟩
  documents :=
    [⟨⟨1⟩, ⟨"a.rs"⟩, Visibility.structParser.tree "struct A;", 0⟩,
      ⟨⟨2⟩, ⟨"b.rs"⟩, Visibility.structParser.tree "struct", 0⟩]

/-- The finding of the first file has both an edit and its failure, and the second file is one
failure. -/
theorem Collector.collect_accounts_refusing :
    (∀ p ∈ refusingCollector.proposers, p.Faithful) ∧
      ∃ collection, refusingCollector.collect halfFaultyProject .missingVisibility .makePub
          (fun _ => false) = .ok collection ∧
        collection.findings.length = 1 ∧ collection.batch.size = 1 ∧
        collection.failures.map (fun f => (f.path, f.kind, f.message)) =
          [("a.rs", .nodeNotFound, "no fixable item at 0..6 in a.rs"),
            ("b.rs", .ruleEvaluationFailed, "cannot evaluate b.rs: syntax error at 1:1")] := by
  have hfaithful : ∀ p ∈ refusingCollector.proposers, p.Faithful := by
    simp only [refusingCollector, List.forall_mem_cons, List.not_mem_nil, false_implies,
      implies_true, and_true]
    exact ⟨Visibility.faithful_proposer _, faithful_refuser _, faithful_refuser _⟩
  obtain ⟨-, -, hcollect⟩ :=
    refusingCollector.collect_accounts hfaithful .missingVisibility .makePub
  obtain ⟨r, hr, hprojects⟩ := hcollect ⟨_, List.mem_cons_self, rfl⟩ (List.cons_ne_nil _ _)
  have hrule : r = Visibility.rule ItemKind.all := (Option.some.inj hr).symm
  subst hrule
  obtain ⟨collection, haccounts, hok⟩ := hprojects halfFaultyProject
  refine ⟨hfaithful, collection, (hok _).trans (if_neg (by decide)), ?_, ?_, ?_⟩
  · rw [haccounts.findings]
    decide +kernel
  · rw [haccounts.size]
    decide +kernel
  · rw [haccounts.failures]
    decide +kernel

end PubSweep
