import Mathlib.Algebra.GroupWithZero.Nat
import Mathlib.Algebra.Order.BigOperators.Group.List
import Mathlib.Algebra.Order.Group.Nat
import Mathlib.Data.List.Perm.Basic
import PubSweep.Proofs.Pass.Prediction

/-!
The counts in the report on a pass.

The edits of a batch are split by what becomes of them (`perm_edits`): they have changed the text of
a document, could not be applied, have left the text as it was, or are for documents elsewhere.
`report_balances` says that the counts of a report add up in this way.
-/

namespace PubSweep

open Syntax

/-! ### The edits of a batch -/

/-- What becomes of the edits for a document. -/
inductive Fate where
  /-- The document has another text. -/
  | changed
  /-- The edits cannot be applied. -/
  | failed
  /-- The document has its old text. -/
  | unchanged
deriving DecidableEq

section

variable (parser : Parser) (batch : FixBatch)

/-- What becomes of the edits of a batch for a document. -/
def fateOf (d : Document) : Fate :=
  match applyDocument parser d (batch.editsFor d.id) with
  | .error _ => .failed
  | .ok new => if new.text = d.text then .unchanged else .changed

/-- The edits of a batch for those documents of a project that have one fate. -/
def editsOfFate (q : Project) (fate : Fate) : List Edit :=
  (q.documents.filter (fateOf parser batch · = fate)).flatMap fun d => batch.editsFor d.id

/-- The edits of a batch for documents that are not in a project. -/
def FixBatch.editsOutside (q : Project) : List Edit :=
  (batch.documents.filter (· ∉ q.documents.map Document.id)).flatMap batch.editsFor

/-- Documents are split by their fates. -/
theorem perm_fates (docs : List Document) :
    docs.Perm (docs.filter (fateOf parser batch · = .changed) ++
      docs.filter (fateOf parser batch · = .failed) ++
      docs.filter (fateOf parser batch · = .unchanged)) := by
  have hfirst := List.filter_append_perm (fateOf parser batch · = .changed) docs
  have hsecond := List.filter_append_perm (fateOf parser batch · = .failed)
    (docs.filter fun d => !decide (fateOf parser batch d = .changed))
  have hfailed : (docs.filter fun d => !decide (fateOf parser batch d = .changed)).filter
      (fateOf parser batch · = .failed) = docs.filter (fateOf parser batch · = .failed) := by
    rw [List.filter_filter]
    apply List.filter_congr
    intro d _
    cases fateOf parser batch d <;> rfl
  have hunchanged : (docs.filter fun d => !decide (fateOf parser batch d = .changed)).filter
      (fun d => !decide (fateOf parser batch d = .failed)) =
        docs.filter (fateOf parser batch · = .unchanged) := by
    rw [List.filter_filter]
    apply List.filter_congr
    intro d _
    cases fateOf parser batch d <;> rfl
  rw [hfailed, hunchanged] at hsecond
  rw [List.append_assoc]
  exact (hfirst.symm.trans (hsecond.symm.append_left _))

variable {batch}

/-- The edits of a batch are for documents of a project or for documents elsewhere. -/
theorem perm_inside_outside (hbatch : FixBatch.Ordered batch.groups) {q : Project}
    (hids : (q.documents.map Document.id).Nodup) :
    batch.edits.Perm
      ((q.documents.flatMap fun d => batch.editsFor d.id) ++ batch.editsOutside q) := by
  have hnodup := FixBatch.nodup_documents hbatch
  -- the identities that batch and project share, as each of the two lists them
  have hshared : (batch.documents.filter (· ∈ q.documents.map Document.id)).Perm
      ((q.documents.map Document.id).filter (· ∈ batch.documents)) := by
    rw [List.perm_ext_iff_of_nodup (hnodup.filter _) (hids.filter _)]
    intro id
    simp only [List.mem_filter, decide_eq_true_eq]
    exact And.comm
  have hnone : ((q.documents.map Document.id).filter
      (fun id => !decide (id ∈ batch.documents))).flatMap batch.editsFor = [] := by
    rw [List.flatMap_eq_nil_iff]
    intro id hid
    apply FixBatch.editsFor_eq_nil
    simpa using (List.mem_filter.mp hid).2
  have hinside : ((batch.documents.filter (· ∈ q.documents.map Document.id)).flatMap
      batch.editsFor).Perm (q.documents.flatMap fun d => batch.editsFor d.id) := by
    have hids := (List.filter_append_perm (· ∈ batch.documents)
      (q.documents.map Document.id)).flatMap_right batch.editsFor
    rw [List.flatMap_append, hnone, List.append_nil, List.flatMap_map] at hids
    exact (hshared.flatMap_right batch.editsFor).trans hids
  have hsplit := (List.filter_append_perm (· ∈ q.documents.map Document.id)
    batch.documents).flatMap_right batch.editsFor
  rw [List.flatMap_append, ← FixBatch.edits_eq_flatMap hbatch] at hsplit
  refine hsplit.symm.trans ((hinside.append_right _).trans (.of_eq ?_))
  simp only [FixBatch.editsOutside, decide_not]

/-- The edits of a batch are split into four parts by what becomes of them. -/
theorem perm_edits (hbatch : FixBatch.Ordered batch.groups) {q : Project}
    (hids : (q.documents.map Document.id).Nodup) :
    batch.edits.Perm (editsOfFate parser batch q .changed ++ editsOfFate parser batch q .failed ++
      editsOfFate parser batch q .unchanged ++ batch.editsOutside q) := by
  have hfates := (perm_fates parser batch q.documents).flatMap_right fun d => batch.editsFor d.id
  rw [List.flatMap_append, List.flatMap_append] at hfates
  exact (perm_inside_outside hbatch hids).trans (hfates.append_right _)

variable (batch)

/-- The change that the report tells of a document counts its edits. -/
theorem edits_change? (d : Document) :
    (editOutcome parser batch d).change?.map (·.edits) =
      if fateOf parser batch d = .changed then some (batch.editsFor d.id).length else none := by
  rw [EditOutcome.change?, fateOf]
  cases hresult : applyDocument parser d (batch.editsFor d.id) with
  | error e => simp [changed?_of_error hresult]
  | ok new =>
      by_cases htext : new.text = d.text
      · simp [changed?_of_ok hresult, htext]
      · simp only [changed?_of_ok hresult, htext, if_false, Option.map_some, if_true]
        rfl

/-- The changes count the edits that have changed a text. -/
theorem sum_edits_changes (q : Project) :
    ((q.documents.filterMap fun d => (editOutcome parser batch d).change?).map (·.edits)).sum =
      (editsOfFate parser batch q .changed).length := by
  rw [editsOfFate, List.length_flatMap, List.map_filterMap, ← List.filterMap_eq_map,
    List.filterMap_filter]
  simp only [edits_change?, decide_eq_true_eq]
  rfl

end

theorem Collector.ordered_batch {c : Collector} {q : Project} {rule : RuleId} {fix : FixId}
    {interrupted : Nat → Bool} {collection : Collection}
    (h : c.collect q rule fix interrupted = .ok collection) :
    FixBatch.Ordered collection.batch.groups := by
  obtain ⟨r, rfl⟩ := exists_collected h
  exact FixBatch.ordered_acceptAll (b := ⟨rule, fix, []⟩) List.Pairwise.nil _

theorem Collector.documentsScanned_eq {c : Collector} {q : Project} {rule : RuleId} {fix : FixId}
    {interrupted : Nat → Bool} {collection : Collection}
    (h : c.collect q rule fix interrupted = .ok collection) :
    collection.documentsScanned = q.documents.length := by
  obtain ⟨r, rfl⟩ := exists_collected h
  exact List.length_map _

/-! ### Totals -/

/-- A total that fits is the sum. -/
theorem Report.total_eq_sum (reports : List ProjectReport) (count : ProjectReport → Nat)
    (h : (reports.map count).sum < wordSize) :
    reports.foldr (fun r n => count r + n) 0 % wordSize = (reports.map count).sum := by
  have hsum : reports.foldr (fun r n => count r + n) 0 = (reports.map count).sum := by
    rw [List.sum_eq_foldr, List.foldr_map]
  rw [hsum, Nat.mod_eq_of_lt h]

namespace Pass

/-- The counts in the report on a project, for what was collected in it. -/
structure ProjectBalance (parser : Parser) (q : Project) (collection : Collection)
    (report : ProjectReport) : Prop where
  name : report.name = q.name
  scanned : report.documentsScanned = q.documents.length
  findings : report.findings = collection.findings.length
  accepted : report.editsAccepted = collection.batch.edits.length
  /-- Each accepted edit is in one of four parts. -/
  parts : collection.batch.edits.Perm
    (editsOfFate parser collection.batch q .changed ++
      editsOfFate parser collection.batch q .failed ++
      editsOfFate parser collection.batch q .unchanged ++ collection.batch.editsOutside q)
  /-- The changes count the edits of the first part. -/
  changes : (report.changes.map (·.edits)).sum =
    (editsOfFate parser collection.batch q .changed).length
  sum : report.editsAccepted = (report.changes.map (·.edits)).sum +
    (editsOfFate parser collection.batch q .failed).length +
    (editsOfFate parser collection.batch q .unchanged).length +
    (collection.batch.editsOutside q).length

/-- The counts in the report on a pass.  Totals have 64 bits. -/
structure Balance (p : Pass) (projects : List Project) (collection : Project → Collection)
    (applied : Project → Applied) (o : Outcome) : Prop where
  /-- There is one report for each project, in order. -/
  reports : List.Forall₂ (fun q report => ProjectBalance p.parser q (collection q) report) projects
    o.report.projects
  scanned : (projects.flatMap Project.documents).length < wordSize →
    o.report.summary.documentsScanned = (projects.flatMap Project.documents).length
  findings : o.findings.length < wordSize → o.report.summary.findings = o.findings.length
  failures : o.report.summary.failures = o.report.failures.length
  /-- No more edits are applied than accepted. -/
  edits : (o.report.projects.map (·.editsAccepted)).sum < wordSize →
    o.report.summary.editsApplied ≤ o.report.summary.editsAccepted
  /-- In each project, failures to collect come before failures to apply. -/
  order : o.report.failures = projects.flatMap fun q =>
    (collection q).failures ++ (applied q).failures

section

variable {p : Pass} {rule : RuleId} {fix : FixId} {projects : List Project}
  {collection : Project → Collection} {applied : Project → Applied}
  (hworks : p.Works rule fix projects collection applied)
  (hids : ∀ q ∈ projects, (q.documents.map Document.id).Nodup)

include hworks hids

theorem projectBalance_reportOf {q : Project} (hq : q ∈ projects) :
    ProjectBalance p.parser q (collection q)
      (reportOf q (collection q) (applied q).changes) := by
  have hcollects := hworks.collects q hq
  have hparts := perm_edits p.parser (Collector.ordered_batch hcollects) (hids q hq)
  have hsize := (collection q).batch.size_eq_length_edits
  have hchanges : ((applied q).changes.map (·.edits)).sum =
      (editsOfFate p.parser (collection q).batch q .changed).length := by
    have happlied := (hworks.applies q hq).symm.trans
      (applyBatch_eq p.parser (collection q).batch (hids q hq))
    rw [Option.some.inj happlied]
    exact sum_edits_changes p.parser (collection q).batch q
  refine ⟨rfl, Collector.documentsScanned_eq hcollects, rfl, hsize, hparts, hchanges, ?_⟩
  have hlength := hparts.length_eq
  rw [List.length_append, List.length_append, List.length_append, ← hchanges, ← hsize] at hlength
  exact hlength

theorem balance_fixOutcome (stamp : Stamp) :
    Balance p projects collection applied
      (p.fixOutcome rule fix projects collection applied stamp) := by
  have hreports : List.Forall₂
      (fun q report => ProjectBalance p.parser q (collection q) report) projects
      (projects.map fun q => reportOf q (collection q) (applied q).changes) := by
    rw [List.forall₂_map_right_iff, List.forall₂_same]
    exact fun q hq => projectBalance_reportOf hworks hids hq
  constructor
  case reports => exact hreports
  case scanned =>
    have hsum : ((projects.map fun q => reportOf q (collection q) (applied q).changes).map
        (·.documentsScanned)).sum = (projects.flatMap Project.documents).length := by
      rw [List.map_map, List.length_flatMap]
      apply congrArg
      apply List.map_congr_left
      intro q hq
      exact Collector.documentsScanned_eq (hworks.collects q hq)
    rw [← hsum]
    exact Report.total_eq_sum _ (·.documentsScanned)
  case findings =>
    have hsum : ((projects.map fun q => reportOf q (collection q) (applied q).changes).map
        (·.findings)).sum = (projects.flatMap fun q => (collection q).findings).length := by
      rw [List.map_map, List.length_flatMap]
      rfl
    change (projects.flatMap fun q => (collection q).findings).length < wordSize →
      _ = (projects.flatMap fun q => (collection q).findings).length
    rw [← hsum]
    exact Report.total_eq_sum _ (·.findings)
  case failures => rfl
  case edits =>
    intro hsmall
    have hle : ((projects.map fun q => reportOf q (collection q) (applied q).changes).map
        fun r => r.changes.foldr (fun c n => c.edits + n) 0).sum ≤
          ((projects.map fun q => reportOf q (collection q) (applied q).changes).map
            (·.editsAccepted)).sum := by
      apply List.sum_le_sum
      intro r hr
      obtain ⟨q, hq, rfl⟩ := List.mem_map.mp hr
      have hbalance := (projectBalance_reportOf hworks hids hq).sum
      rw [List.sum_eq_foldr, List.foldr_map] at hbalance
      omega
    have happlied := Report.total_eq_sum _ _ (Nat.lt_of_le_of_lt hle hsmall)
    have haccepted := Report.total_eq_sum _ (·.editsAccepted) hsmall
    exact (happlied.trans_le hle).trans_eq haccepted.symm
  case order => rfl

end

/-- The report on a pass balances.  For projects whose documents have different identities, a pass
that corrects and is not interrupted reports the mistake of its caller, or gives a report whose
counts add up for what was collected in the projects and done to them. -/
theorem report_balances (p : Pass) (projects : List Project)
    (hids : ∀ q ∈ projects, (q.documents.map Document.id).Nodup) (rule : RuleId) (fix : FixId)
    (stamp : Stamp) :
    (∃ e, p.collector.refusal rule fix = some e ∧
        p.run projects rule fix .fix stamp .never = .error e) ∨
      ∃ o collection applied, p.run projects rule fix .fix stamp .never = .ok o ∧
        p.Works rule fix projects collection applied ∧
        Balance p projects collection applied o := by
  rcases p.refused_or_works rule fix projects with
    ⟨e, hrefusal, hrun⟩ | ⟨collection, applied, hworks⟩
  · exact Or.inl ⟨e, hrefusal, hrun .fix stamp⟩
  · exact Or.inr ⟨_, collection, applied, hworks.run_fix stamp, hworks,
      balance_fixOutcome hworks hids stamp⟩

end Pass

/-! ### Edits of every fate -/

/-- A rule that finds something at the start of every file. -/
def startRule : Rule where
  id := .missingVisibility
  evaluate d := .ok [{ (default : Finding) with document := d.id, path := d.path }]

/-- A proposer whose edits fit the first file, lie behind the end of the second, put nothing into
the third, and are for a file elsewhere if they should be for another one. -/
def scatteringProposer : Proposer where
  fix := .makePub
  propose d f :=
    let (document, offset, text) :=
      if d.path.text = "a.rs" then (d.id, 0, "pub ")
      else if d.path.text = "b.rs" then (d.id, 50, "pub ")
      else if d.path.text = "c.rs" then (d.id, 0, "")
      else (⟨9⟩, 0, "pub ")
    .ok { (default : Edit) with
      document, span := .empty offset, replacement := text, fix := .makePub, finding := f }

/-- Four files with the same text. -/
def quadProject : Project :=
  { tripleProject with documents := tripleProject.documents ++ [structDocument 4 "d.rs"] }

/-- The pass with the rule and the proposer. -/
def scatteringPass : Pass where
  parser := Visibility.structParser
  collector := ⟨[startRule], [scatteringProposer]⟩
  tool := default

/-- Of four accepted edits one is applied, one fails, one changes nothing, and one is for a file
elsewhere. -/
theorem Pass.report_balances_quad :
    (quadProject.documents.map Document.id).Nodup ∧
      ∃ o report, scatteringPass.run [quadProject] .missingVisibility .makePub .fix default .never =
          .ok o ∧
        o.report.projects = [report] ∧ (report.changes.map (·.edits)).sum = 1 ∧
        report.editsAccepted = 1 + 1 + 1 + 1 ∧ o.report.summary.documentsScanned = 4 ∧
        o.report.summary.editsApplied ≤ o.report.summary.editsAccepted := by
  have hids : (quadProject.documents.map Document.id).Nodup := by decide +kernel
  refine ⟨hids, ?_⟩
  rcases report_balances scatteringPass [quadProject] (List.forall_mem_singleton.mpr hids)
    .missingVisibility .makePub default with
    ⟨e, hrefusal, -⟩ | ⟨o, collection, applied, hrun, hworks, hbalance⟩
  · have hnone : scatteringPass.collector.refusal .missingVisibility .makePub = none := by
      decide +kernel
    exact absurd (hnone.symm.trans hrefusal) (Option.some_ne_none e).symm
  · have hparts : (scatteringPass.collector.collect quadProject .missingVisibility .makePub
        fun _ => false).toOption.map (fun c =>
          ((editsOfFate Visibility.structParser c.batch quadProject .changed).length,
            (editsOfFate Visibility.structParser c.batch quadProject .failed).length,
            (editsOfFate Visibility.structParser c.batch quadProject .unchanged).length,
            (c.batch.editsOutside quadProject).length)) = some (1, 1, 1, 1) := by
      decide +kernel
    rw [hworks.collects quadProject List.mem_cons_self] at hparts
    simp only [Except.toOption, Option.map_some, Option.some.injEq, Prod.mk.injEq] at hparts
    obtain ⟨hchanged, hfailed, hunchanged, houtside⟩ := hparts
    obtain ⟨report, reports, hreport, hreports, heq⟩ :=
      List.forall₂_cons_left_iff.mp hbalance.reports
    rw [List.forall₂_nil_left_iff.mp hreports] at heq
    have hsum := hreport.sum
    have hchanges := hreport.changes
    have haccepted : report.editsAccepted = 1 + 1 + 1 + 1 := by
      rw [hsum, hchanges]
      exact congrArg₂ _ (congrArg₂ _ (congrArg₂ _ hchanged hfailed) hunchanged) houtside
    refine ⟨o, report, hrun, heq, hchanges.trans hchanged, haccepted, hbalance.scanned (by decide),
      hbalance.edits ?_⟩
    rw [heq, List.map_singleton, List.sum_singleton, haccepted]
    decide

end PubSweep
