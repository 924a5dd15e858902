import PubSweep.Proofs.Apply
import PubSweep.Proofs.Visibility.Publish
import PubSweep.Proofs.Visibility.Scan

/-!
What becomes of a document whose items are given a visibility.

The edits collected from a document put one token in at the starts of its items, so they always
fit (`applyDocument_itemEdits`).  `applyBatch_collected` says what the whole batch does.  With a
parser that reads visibilities, no correction makes a text faulty (`not_breaks`).
-/

namespace PubSweep.Visibility

open Syntax

/-- The text of a document with the token of a fix in front of every item that lacks a
visibility. -/
def correctedText (kinds : List ItemKind) (fix : FixId) (d : Document) : String :=
  withVisibility fix (anchors kinds d.tree.root) d.text

section

variable (parser : Parser) (kinds : List ItemKind) (fix : FixId)

/-- Whether a document without faults would get faults by its correction. -/
def Breaks (d : Document) : Prop :=
  d.tree.hasErrors = false ∧ (parser.tree (correctedText kinds fix d)).hasErrors = true

instance : DecidablePred (Breaks parser kinds fix) :=
  fun _ => inferInstanceAs (Decidable (_ ∧ _))

/-- The failure of a document that would get faults. -/
def brokenFailure (project : String) (d : Document) : Option Failure :=
  if Breaks parser kinds fix d then
    some (.ofDocument project d.path .syntaxBroken "edited document no longer parses"
      (parser.tree (correctedText kinds fix d)).firstError)
  else none

/-- The document in the place of a document after its correction.  It stays the very same one if it
has faults, would get some, or has no item that lacks a visibility. -/
def corrected (d : Document) : Document :=
  if d.tree.hasErrors ∨ Breaks parser kinds fix d ∨ correctedText kinds fix d = d.text then d
  else
    { d with tree := parser.tree (correctedText kinds fix d), revision := d.revision + 1 }

end

variable {parser : Parser} {kinds : List ItemKind} {fix : FixId} {d : Document}

theorem insertions_itemEdits (hshape : d.tree.root.Shaped d.tree.text.toList) :
    Insertions (fix.token ++ " ") (itemEdits kinds fix d) where
  empty e he := (mem_itemEdits he).1
  token e he := (mem_itemEdits he).2
  ascending := by
    have hstarts := pairwise_anchors kinds hshape
    rw [← map_start_itemEdits kinds fix d, List.pairwise_map] at hstarts
    exact hstarts

/-- Without items that lack a visibility, the text stays as it is. -/
theorem correctedText_of_anchors_eq_nil (h : anchors kinds d.tree.root = []) :
    correctedText kinds fix d = d.text := by
  rw [correctedText, h, withVisibility_nil]

/-- The edits of a document without faults fit its text.  They fail only if the parser finds
faults in the new text. -/
theorem applyDocument_itemEdits (hparser : parser.WellFormed) (hd : d.ParsedBy parser)
    (hclean : d.tree.hasErrors = false) :
    applyDocument parser d (itemEdits kinds fix d) =
      if Breaks parser kinds fix d then
        .error (.syntaxBroken (parser.tree (correctedText kinds fix d)).firstError)
      else .ok (d.withTree (parser.tree (correctedText kinds fix d))) := by
  have hshape := hd.shaped hparser hclean
  have hboundary : ∀ e ∈ itemEdits kinds fix d,
      Text.isBoundary e.span.start d.text.toList = true := by
    intro e he
    have hanchor : e.span.start ∈ anchors kinds d.tree.root := by
      rw [← map_start_itemEdits kinds fix d]
      exact List.mem_map_of_mem he
    exact isBoundary_of_mem_anchors hshape hanchor
  rw [(insertions_itemEdits hshape).applyDocument_eq hd hboundary, map_start_itemEdits]
  simp only [Breaks, hclean, Bool.not_false, Bool.true_and, true_and]
  rfl

variable {project : Project}

/-- What the collected batch does to a document without faults. -/
theorem editOutcome_of_clean (kinds : List ItemKind) (fix : FixId) (hparser : parser.WellFormed)
    (hproject : project.Regular parser) (hd : d ∈ project.documents)
    (hclean : d.tree.hasErrors = false) (ruleId : RuleId) :
    (editOutcome parser (collected kinds ruleId fix project).batch d).result =
      if Breaks parser kinds fix d then
        .error (.syntaxBroken (parser.tree (correctedText kinds fix d)).firstError)
      else .ok (d.withTree (parser.tree (correctedText kinds fix d))) := by
  rw [editOutcome, editsFor_collected kinds ruleId fix hparser hproject hd, acceptedEdits, hclean]
  exact applyDocument_itemEdits hparser (hproject.parsed d hd) hclean

/-- The collected batch has no edits for a document with faults. -/
theorem editOutcome_of_faulty (kinds : List ItemKind) (fix : FixId) (hparser : parser.WellFormed)
    (hproject : project.Regular parser) (hd : d ∈ project.documents)
    (hfaulty : d.tree.hasErrors = true) (ruleId : RuleId) :
    (editOutcome parser (collected kinds ruleId fix project).batch d).result = .ok d := by
  apply editOutcome_of_isEmpty
  rw [editsFor_collected kinds ruleId fix hparser hproject hd, acceptedEdits, hfaulty]
  rfl

/-- The collected batch corrects each document. -/
theorem settled_collected (hparser : parser.WellFormed) (hproject : project.Regular parser)
    (hd : d ∈ project.documents) (ruleId : RuleId) :
    settled parser (collected kinds ruleId fix project).batch d = corrected parser kinds fix d := by
  cases herrors : d.tree.hasErrors with
  | true =>
      have hresult := editOutcome_of_faulty kinds fix hparser hproject hd herrors ruleId
      simp [settled, EditOutcome.changed?, hresult, corrected, herrors]
  | false =>
      have hresult := editOutcome_of_clean kinds fix hparser hproject hd herrors ruleId
      by_cases hbreaks : Breaks parser kinds fix d
      · simp [settled, EditOutcome.changed?, hresult, corrected, hbreaks]
      · rw [if_neg hbreaks] at hresult
        have htext : (d.withTree (parser.tree (correctedText kinds fix d))).text =
            correctedText kinds fix d := rfl
        simp only [settled, EditOutcome.changed?, hresult, document_editOutcome, htext, corrected,
          herrors, hbreaks, Bool.false_eq_true, false_or]
        by_cases hsame : correctedText kinds fix d = d.text
        · rw [if_pos hsame, if_pos hsame]
        · rw [if_neg hsame, if_neg hsame]
          rfl

/-- The only failure of the collected batch is that a document would get faults. -/
theorem failure_collected (hparser : parser.WellFormed) (hproject : project.Regular parser)
    (hd : d ∈ project.documents) (ruleId : RuleId) :
    (editOutcome parser (collected kinds ruleId fix project).batch d).failure? project.name =
      brokenFailure parser kinds fix project.name d := by
  cases herrors : d.tree.hasErrors with
  | true =>
      have hresult := editOutcome_of_faulty kinds fix hparser hproject hd herrors ruleId
      simp [EditOutcome.failure?, hresult, brokenFailure, Breaks, herrors]
  | false =>
      have hresult := editOutcome_of_clean kinds fix hparser hproject hd herrors ruleId
      by_cases hbreaks : Breaks parser kinds fix d
      · simp [EditOutcome.failure?, hresult, brokenFailure, hbreaks, ApplyError.failureKind,
          ApplyError.message, ApplyError.position]
      · simp [EditOutcome.failure?, hresult, brokenFailure, hbreaks]

/-- What the collected batch does to a project: each document is corrected, and those that would
get faults are the failures. -/
theorem applyBatch_collected (kinds : List ItemKind) (ruleId : RuleId) (fix : FixId)
    (hparser : parser.WellFormed) (hproject : project.Regular parser) :
    applyBatch parser project (collected kinds ruleId fix project).batch (fun _ => false) =
      some
        { project :=
            { project with documents := project.documents.map (corrected parser kinds fix) }
          changes := project.documents.filterMap fun d =>
            (editOutcome parser (collected kinds ruleId fix project).batch d).change?
          failures := project.documents.filterMap
            (brokenFailure parser kinds fix project.name) } := by
  have hdocuments : project.documents.map
      (settled parser (collected kinds ruleId fix project).batch) =
        project.documents.map (corrected parser kinds fix) :=
    List.map_congr_left fun d hd => settled_collected hparser hproject hd ruleId
  have hfailures : (project.documents.filterMap fun d =>
      (editOutcome parser (collected kinds ruleId fix project).batch d).failure? project.name) =
        project.documents.filterMap (brokenFailure parser kinds fix project.name) :=
    List.filterMap_congr fun d hd => failure_collected hparser hproject hd ruleId
  rw [applyBatch_eq parser _ hproject.distinct, hdocuments, hfailures]

/-! ### With a parser that reads visibilities -/

/-- The tree of the corrected text. -/
theorem parse_correctedText (hreads : ReadsVisibility parser) (hd : d.ParsedBy parser)
    (hclean : d.tree.hasErrors = false) (kinds : List ItemKind) (fix : FixId) :
    parser.parse (correctedText kinds fix d) =
      ⟨publish fix (anchors kinds d.tree.root) [] d.tree.root, false⟩ := by
  have hparse : parser.parse d.text = d.tree.parsed := by
    rw [Document.ParsedBy] at hd
    rw [hd]
    rfl
  have hlaw := hreads d.text fix (anchors kinds d.tree.root)
  rw [hparse] at hlaw
  exact hlaw hclean (anchors_sublist_all kinds d.tree.root)

/-- A parser that reads visibilities finds no faults in a corrected text. -/
theorem not_breaks (hreads : ReadsVisibility parser) (hd : d.ParsedBy parser)
    (kinds : List ItemKind) (fix : FixId) : ¬ Breaks parser kinds fix d := by
  rintro ⟨hclean, hbroken⟩
  have hparse := parse_correctedText hreads hd hclean kinds fix
  rw [SyntaxTree.hasErrors, Parser.tree, hparse] at hbroken
  cases hbroken

/-- A corrected document is what the parser makes of the corrected text. -/
theorem tree_corrected (hreads : ReadsVisibility parser) (hd : d.ParsedBy parser)
    (hclean : d.tree.hasErrors = false) (kinds : List ItemKind) (fix : FixId) :
    (corrected parser kinds fix d).tree = parser.tree (correctedText kinds fix d) := by
  rw [corrected]
  split
  case isTrue hkeep =>
    rcases hkeep with hfaulty | hbreaks | hsame
    · rw [hclean] at hfaulty
      cases hfaulty
    · exact absurd hbreaks (not_breaks hreads hd kinds fix)
    · rw [hsame]
      exact hd
  case isFalse => rfl

theorem corrected_of_faulty (hfaulty : d.tree.hasErrors = true) (kinds : List ItemKind)
    (fix : FixId) : corrected parser kinds fix d = d := by
  rw [corrected, if_pos (Or.inl hfaulty)]

end PubSweep.Visibility
