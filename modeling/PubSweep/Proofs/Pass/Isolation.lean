import PubSweep.Proofs.Pass.Outcome

/-!
Documents do not interfere with one another.

What a pass tells of a document, its `DocumentTrace`, is computed from the document and the name of
its project.  An outcome is put together from the traces of all documents (`composed_assembled`),
so two passes over the same document tell the same of it, whatever else they work on
(`run_isolates`).
-/

namespace PubSweep

open Syntax

/-- The same document, replaced another number of times. -/
def Document.atRevision (d : Document) (n : Nat) : Document := { d with revision := n }

/-- A rule that reads nothing but the identity, path and tree of the document that it is given, and
whose findings name this document. -/
structure Rule.Local (r : Rule) : Prop where
  revision : ∀ d n, r.evaluate (d.atRevision n) = r.evaluate d
  names : ∀ d findings, r.evaluate d = .ok findings → ∀ f ∈ findings, f.document = d.id

/-- A proposer that reads nothing but the finding and the identity, path and tree of the document
that it is given, and whose edits name this document. -/
structure Proposer.Local (p : Proposer) : Prop where
  revision : ∀ d n f, p.propose (d.atRevision n) f = p.propose d f
  names : ∀ d f e, f.document = d.id → p.propose d f = .ok e → e.document = d.id

/-- What a pass tells of one document. -/
structure DocumentTrace where
  /-- The text behind the pass. -/
  text : String
  findings : List Finding
  /-- The entry among the changes of the project. -/
  change : Option DocumentChange
  scanFailures : List Failure
  editFailure : Option Failure

/-- An outcome that is put together from what is told of each document.  In the failures of a
project, those of its scan come first. -/
structure Outcome.ComposedOf (trace : String → Document → DocumentTrace) (projects : List Project)
    (o : Outcome) : Prop where
  texts : o.projects.map (·.documents.map Document.text) =
    projects.map fun q => q.documents.map fun d => (trace q.name d).text
  findings : o.findings =
    projects.flatMap fun q => q.documents.flatMap fun d => (trace q.name d).findings
  changes : o.report.projects.map (·.changes) =
    projects.map fun q => q.documents.filterMap fun d => (trace q.name d).change
  failures : o.report.failures =
    projects.flatMap fun q =>
      (q.documents.flatMap fun d => (trace q.name d).scanFailures) ++
        q.documents.filterMap fun d => (trace q.name d).editFailure

/-- The text of a document of an outcome, by the numbers of its project and of the document. -/
def Outcome.text? (o : Outcome) (project document : Nat) : Option String :=
  (o.projects[project]?.bind (·.documents[document]?)).map Document.text

theorem Outcome.ComposedOf.text? {trace : String → Document → DocumentTrace}
    {projects : List Project} {o : Outcome} (h : o.ComposedOf trace projects) {k i : Nat}
    {q : Project} (hq : projects[k]? = some q) {d : Document} (hd : q.documents[i]? = some d) :
    o.text? k i = some (trace q.name d).text := by
  have htexts := congrArg (fun texts => texts[k]?.bind (·[i]?)) h.texts
  simp only [List.getElem?_map, hq, hd, Option.map_some, Option.bind_some] at htexts
  rw [← htexts, Outcome.text?]
  cases o.projects[k]? with
  | none => rfl
  | some after => simp

/-! ### The edits of a document -/

section

variable {r : Rule} {proposers : List Proposer} {d : Document}

theorem document_of_mem_findingsIn (hr : r.Local) {f : Finding} (hf : f ∈ r.findingsIn d) :
    f.document = d.id := by
  rw [Rule.findingsIn] at hf
  cases hevaluate : r.evaluate d with
  | error e => simp [hevaluate] at hf
  | ok findings =>
      rw [hevaluate] at hf
      exact hr.names d findings hevaluate f hf

/-- The edits that a document leads to name the document. -/
theorem document_of_mem_editsIn (hr : r.Local) (hproposers : ∀ p ∈ proposers, p.Local) {e : Edit}
    (he : e ∈ r.editsIn proposers d) : e.document = d.id := by
  obtain ⟨f, hf, he⟩ := List.mem_flatMap.mp he
  obtain ⟨p, hp, hpropose⟩ := List.mem_filterMap.mp he
  have hfinding := document_of_mem_findingsIn hr hf
  cases hresult : p.propose d f with
  | error _ => simp [hresult, Except.toOption] at hpropose
  | ok new =>
      rw [hresult] at hpropose
      rw [← Option.some.inj hpropose]
      exact (hproposers p hp).names d f new hfinding hresult

/-- The batch of a project holds, for each of its documents, the edits that the document itself has
led to. -/
theorem Collector.editsFor_collected {c : Collector} (hr : r.Local)
    (hproposers : ∀ p ∈ c.proposers, p.Local) {q : Project}
    (hids : (q.documents.map Document.id).Nodup) (hd : d ∈ q.documents) (rule : RuleId)
    (fix : FixId) :
    (c.collected r rule fix q).batch.editsFor d.id =
      (r.editsIn c.proposers d).filter (·.fix = fix) := by
  have hother : ∀ other : Document,
      ((r.editsIn c.proposers other).filter (·.fix = fix)).filter (·.document = d.id) =
        if other.id = d.id then (r.editsIn c.proposers other).filter (·.fix = fix) else [] := by
    intro other
    -- the edits of one document all name it, so the second filter keeps all of them or none
    have hnames : ∀ e ∈ (r.editsIn c.proposers other).filter (·.fix = fix),
        e.document = other.id := fun e he =>
      document_of_mem_editsIn hr hproposers (List.mem_filter.mp he).1
    by_cases hid : other.id = d.id
    · rw [if_pos hid, List.filter_eq_self]
      intro e he
      simp [hnames e he, hid]
    · rw [if_neg hid, List.filter_eq_nil_iff]
      intro e he
      simp [hnames e he, hid]
  rw [collected, editsFor_ofScans, List.flatMap_map, List.filter_flatMap, List.filter_flatMap]
  simp only [edits_scanDocument, hother]
  exact flatMap_ite_of_pairwise (List.pairwise_map.mp hids) hd _

end

/-! ### Documents of different revisions -/

section

variable {r : Rule} {proposers : List Proposer}

theorem findingsIn_atRevision (hr : r.Local) (d : Document) (n : Nat) :
    r.findingsIn (d.atRevision n) = r.findingsIn d := by
  rw [Rule.findingsIn, hr.revision, Rule.findingsIn]

theorem editsIn_atRevision (hr : r.Local) (hproposers : ∀ p ∈ proposers, p.Local) (d : Document)
    (n : Nat) : r.editsIn proposers (d.atRevision n) = r.editsIn proposers d := by
  rw [Rule.editsIn, findingsIn_atRevision hr, Rule.editsIn]
  apply List.flatMap_congr
  intro f _
  apply List.filterMap_congr
  intro p hp
  rw [(hproposers p hp).revision]

theorem failuresIn_atRevision (hr : r.Local) (hproposers : ∀ p ∈ proposers, p.Local)
    (name : String) (d : Document) (n : Nat) :
    r.failuresIn name proposers (d.atRevision n) = r.failuresIn name proposers d := by
  have hrefusals : ∀ f, refusalsOf proposers (d.atRevision n) f = refusalsOf proposers d f := by
    intro f
    apply List.filterMap_congr
    intro p hp
    rw [(hproposers p hp).revision]
  have hfailure : findingFailure name proposers (d.atRevision n) =
      findingFailure name proposers d := by
    funext f
    rw [findingFailure, hrefusals]
    rfl
  rw [Rule.failuresIn, hr.revision, hfailure]
  rfl

theorem applyDocument_atRevision (parser : Parser) (d : Document) (n : Nat) (edits : List Edit) :
    applyDocument parser (d.atRevision n) edits =
      (applyDocument parser d edits).map (·.atRevision n) := by
  simp only [applyDocument, show (d.atRevision n).tree = d.tree from rfl]
  split
  · rfl
  · split
    · rfl
    · generalize (if edits.isEmpty = true then d.tree else _) = tree
      split <;> rfl

/-- What became of a document, had the document been replaced another number of times. -/
def EditOutcome.atRevision (o : EditOutcome) (n : Nat) : EditOutcome :=
  ⟨o.document.atRevision n, o.edits, o.result.map (·.atRevision n)⟩

theorem changed?_atRevision (o : EditOutcome) (n : Nat) :
    (o.atRevision n).changed? = o.changed?.map (·.atRevision n) := by
  obtain ⟨d, edits, result⟩ := o
  rcases result with e | new
  · rfl
  · by_cases htext : new.text = d.text
    · simp only [EditOutcome.changed?, EditOutcome.atRevision]
      rw [if_pos htext]
      exact if_pos htext
    · simp only [EditOutcome.changed?, EditOutcome.atRevision]
      rw [if_neg htext]
      exact if_neg htext

theorem change?_atRevision (o : EditOutcome) (n : Nat) :
    (o.atRevision n).change? = o.change? := by
  rw [EditOutcome.change?, changed?_atRevision, Option.map_map]
  rfl

theorem failure?_atRevision (o : EditOutcome) (n : Nat) (name : String) :
    (o.atRevision n).failure? name = o.failure? name := by
  obtain ⟨d, edits, result⟩ := o
  rcases result with e | new <;> rfl

end

/-! ### The trace of a document -/

namespace Pass

section

variable (p : Pass) (r : Rule) (fix : FixId)

/-- What becomes of a document with the edits of a fix that it leads to. -/
def ownOutcome (d : Document) : EditOutcome :=
  let edits := (r.editsIn p.collector.proposers d).filter (·.fix = fix)
  ⟨d, edits.length, applyDocument p.parser d edits⟩

/-- What a pass tells of a document of a project of some name. -/
def trace (name : String) (d : Document) : DocumentTrace where
  text := (p.ownOutcome r fix d).changed?.elim d.text Document.text
  findings := r.findingsIn d
  change := (p.ownOutcome r fix d).change?
  scanFailures := r.failuresIn name (p.collector.serving fix) d
  editFailure := (p.ownOutcome r fix d).failure? name

end

section

variable {p : Pass} {r : Rule} {rule : RuleId} {fix : FixId}
  (hr : r.Local) (hproposers : ∀ proposer ∈ p.collector.proposers, proposer.Local)

include hr hproposers

theorem editOutcome_collected {q : Project} (hids : (q.documents.map Document.id).Nodup)
    {d : Document} (hd : d ∈ q.documents) :
    editOutcome p.parser (p.collector.collected r rule fix q).batch d = p.ownOutcome r fix d := by
  rw [editOutcome, Collector.editsFor_collected hr hproposers hids hd rule fix]
  rfl

theorem text_settle {q : Project} (hids : (q.documents.map Document.id).Nodup) {d : Document}
    (hd : d ∈ q.documents) :
    (p.settle r rule fix q d).text = (p.trace r fix q.name d).text := by
  rw [settle, settled, editOutcome_collected hr hproposers hids hd, trace]
  cases (p.ownOutcome r fix d).changed? <;> rfl

/-- What a pass makes of projects is put together from the traces of their documents. -/
theorem composed_assembled {projects : List Project}
    (hids : ∀ q ∈ projects, (q.documents.map Document.id).Nodup) (stamp : Stamp) :
    (p.assembled r rule fix stamp projects).ComposedOf (p.trace r fix) projects where
  texts := by
    simp only [assembled, List.map_map]
    apply List.map_congr_left
    intro q hq
    simp only [Function.comp_apply, outcomeIn, List.map_map]
    apply List.map_congr_left
    intro d hd
    exact text_settle hr hproposers (hids q hq) hd
  findings := by
    simp only [assembled, List.flatMap_map]
    apply List.flatMap_congr
    intro q _
    simp only [outcomeIn, Collector.collected, Collection.ofScans, List.flatMap_map,
      findings_scanDocument, trace]
  changes := by
    simp only [assembled, Report.finish, List.map_map]
    apply List.map_congr_left
    intro q hq
    simp only [Function.comp_apply, outcomeIn]
    apply List.filterMap_congr
    intro d hd
    rw [editOutcome_collected hr hproposers (hids q hq) hd, trace]
  failures := by
    simp only [assembled, Report.finish, List.flatMap_map]
    apply List.flatMap_congr
    intro q hq
    have hscan : (p.collector.collected r rule fix q).failures =
        q.documents.flatMap fun d => (p.trace r fix q.name d).scanFailures := by
      simp only [Collector.collected, Collection.ofScans, List.flatMap_map, failures_scanDocument]
      rfl
    have hedit : (q.documents.filterMap fun d => (editOutcome p.parser
        (p.collector.collected r rule fix q).batch d).failure? q.name) =
          q.documents.filterMap fun d => (p.trace r fix q.name d).editFailure := by
      apply List.filterMap_congr
      intro d hd
      rw [editOutcome_collected hr hproposers (hids q hq) hd, trace]
    simp only [outcomeIn, hscan, hedit]

end

section

variable {p : Pass} {r : Rule} (hr : r.Local)
  (hproposers : ∀ proposer ∈ p.collector.proposers, proposer.Local)

include hr hproposers

theorem ownOutcome_atRevision (fix : FixId) (d : Document) (n : Nat) :
    p.ownOutcome r fix (d.atRevision n) = (p.ownOutcome r fix d).atRevision n := by
  simp only [ownOutcome, editsIn_atRevision hr hproposers, applyDocument_atRevision]
  rfl

/-- What a pass tells of a document does not depend on how often the document was replaced. -/
theorem trace_atRevision (fix : FixId) (name : String) (d : Document) (n : Nat) :
    p.trace r fix name (d.atRevision n) = p.trace r fix name d := by
  have hserving : ∀ proposer ∈ p.collector.serving fix, proposer.Local := fun proposer h =>
    hproposers proposer (List.mem_filter.mp h).1
  have htext : ((p.ownOutcome r fix d).changed?.map (·.atRevision n)).elim d.text Document.text =
      (p.ownOutcome r fix d).changed?.elim d.text Document.text := by
    cases (p.ownOutcome r fix d).changed? <;> rfl
  simp only [trace, ownOutcome_atRevision hr hproposers, changed?_atRevision, change?_atRevision,
    failure?_atRevision, findingsIn_atRevision hr, failuresIn_atRevision hr hserving]
  rw [← htext]
  rfl

end

/-! ### Two passes -/

/-- Two passes over projects that hold the same document tell the same of it, whatever the other
documents are.  The document has the same text behind both passes, and the same findings, change
and failures go into both outcomes. -/
theorem run_isolates (p : Pass) (hrules : ∀ r ∈ p.collector.rules, r.Local)
    (hproposers : ∀ proposer ∈ p.collector.proposers, proposer.Local) (rule : RuleId) (fix : FixId)
    (xs ys : List Project) (hxs : ∀ q ∈ xs, (q.documents.map Document.id).Nodup)
    (hys : ∀ q ∈ ys, (q.documents.map Document.id).Nodup) (k l : Nat) (x y : Project)
    (hx : xs[k]? = some x) (hy : ys[l]? = some y) (hname : x.name = y.name) (home : String)
    (path : Path) (text : String) (i j m n : Nat)
    (hd : x.documents[i]? = some ((Document.parse p.parser home path text).atRevision m))
    (he : y.documents[j]? = some ((Document.parse p.parser home path text).atRevision n))
    (stamp stamp' : Stamp) :
    (∃ e, p.collector.refusal rule fix = some e ∧
        p.run xs rule fix .fix stamp .never = .error e ∧
        p.run ys rule fix .fix stamp' .never = .error e) ∨
      ∃ (r : Rule) (o o' : Outcome) (t : DocumentTrace),
        p.collector.rules.find? (·.id = rule) = some r ∧
        p.run xs rule fix .fix stamp .never = .ok o ∧
        p.run ys rule fix .fix stamp' .never = .ok o' ∧
        o.ComposedOf (p.trace r fix) xs ∧ o'.ComposedOf (p.trace r fix) ys ∧
        p.trace r fix x.name ((Document.parse p.parser home path text).atRevision m) = t ∧
        p.trace r fix y.name ((Document.parse p.parser home path text).atRevision n) = t ∧
        o.text? k i = some t.text ∧ o'.text? l j = some t.text := by
  cases hrefusal : p.collector.refusal rule fix with
  | some e =>
      -- both lists have a project, so both passes ask the collector, and get the same answer
      have hxsne : xs ≠ [] := List.ne_nil_of_mem (List.mem_of_getElem? hx)
      have hysne : ys ≠ [] := List.ne_nil_of_mem (List.mem_of_getElem? hy)
      exact Or.inl ⟨e, rfl, run_of_refusal hrefusal hxsne .fix stamp .never,
        run_of_refusal hrefusal hysne .fix stamp' .never⟩
  | none =>
      obtain ⟨r, hfound, hrun⟩ := run_calm hrefusal
      have hr : r.Local := hrules r (List.mem_of_find?_eq_some hfound)
      have hcomposed := @composed_assembled p r rule fix hr hproposers xs hxs stamp
      have hcomposed' := @composed_assembled p r rule fix hr hproposers ys hys stamp'
      have htrace := trace_atRevision hr hproposers fix x.name
        (Document.parse p.parser home path text)
      refine Or.inr ⟨r, _, _, _, hfound, hrun xs hxs stamp, hrun ys hys stamp', hcomposed,
        hcomposed', htrace m, ?_, ?_, ?_⟩
      · rw [← hname]
        exact htrace n
      · rw [hcomposed.text? hx hd, htrace]
      · rw [hcomposed'.text? hy he, ← hname, htrace]

end Pass

/-! ### A file beside another one and alone -/

namespace Visibility

theorem local_rule (kinds : List ItemKind) : (rule kinds).Local where
  revision d n := rfl
  names d found h f hf := by
    simp only [rule, evaluate] at h
    split at h
    · cases h
    · rw [← Except.ok.inj h] at hf
      obtain ⟨c, -, hc⟩ := List.mem_filterMap.mp hf
      simp only [check] at hc
      split at hc
      · cases hc
      · split at hc
        · cases hc
        · split at hc
          · cases hc
          · rw [← Option.some.inj hc]

theorem local_proposer (fix : FixId) : (proposer fix).Local where
  revision d n f := rfl
  names d f e hf h := by
    simp only [proposer, propose] at h
    split at h
    · cases h
    · split at h
      · cases h
      · split at h
        · cases h
        · rw [← Except.ok.inj h]
          exact hf

end Visibility

/-- A file with one item that lacks its visibility. -/
def sharedDocument : Document := .parse Visibility.structParser "demo" ⟨"a.rs"⟩ "struct A;"

/-- A project with the file and a file with a syntax error. -/
def besideFaultyProject : Project :=
  ⟨"demo", ⟨"/demo"⟩,
    [sharedDocument.atRevision 0, .parse Visibility.structParser "demo" ⟨"b.rs"⟩ "struct"]⟩

/-- A project with the file alone, somewhere else. -/
def aloneProject : Project := ⟨"demo", ⟨"/alone"⟩, [sharedDocument.atRevision 1]⟩

theorem Pass.run_isolates_alone :
    ∃ o o' : Outcome,
      (Visibility.pass Visibility.structParser ItemKind.all default none).run [besideFaultyProject]
        .missingVisibility .makePub .fix default .never = .ok o ∧
      (Visibility.pass Visibility.structParser ItemKind.all default none).run
        [halfFaultyProject, aloneProject] .missingVisibility .makePub .fix default .never = .ok o' ∧
      o.text? 0 0 = some "pub struct A;" ∧ o'.text? 1 0 = some "pub struct A;" := by
  have hproposers : ∀ proposer ∈ Visibility.proposers, proposer.Local := by
    intro proposer hproposer
    obtain ⟨fix, -, rfl⟩ := List.mem_map.mp hproposer
    exact Visibility.local_proposer fix
  have hisolates := run_isolates
    (Visibility.pass Visibility.structParser ItemKind.all default none)
    (List.forall_mem_singleton.mpr (Visibility.local_rule ItemKind.all)) hproposers
    .missingVisibility .makePub [besideFaultyProject] [halfFaultyProject, aloneProject]
    (by decide +kernel) (by decide +kernel) 0 1 besideFaultyProject aloneProject rfl rfl rfl
    "demo" ⟨"a.rs"⟩ "struct A;" 0 0 0 1 rfl rfl default default
  rcases hisolates with ⟨e, hrefusal, -, -⟩ |
    ⟨r, o, o', t, hr, hrun, hrun', -, -, ht, -, htext, htext'⟩
  · have hnone : (Collector.standard ItemKind.all).refusal .missingVisibility .makePub = none := by
      decide +kernel
    exact absurd (hnone.symm.trans hrefusal) (Option.some_ne_none e).symm
  · have hrule : r = Visibility.rule ItemKind.all := (Option.some.inj hr).symm
    subst hrule
    have hnew : t.text = "pub struct A;" := by
      rw [← ht]
      decide +kernel
    rw [hnew] at htext htext'
    exact ⟨o, o', hrun, hrun', htext, htext'⟩

end PubSweep
