import PubSweep.Pass
import PubSweep.Proofs.Apply

/-!
Passes whose documents are shared by workers.

The documents of a project are scanned in parallel, and those with edits are edited in parallel:
workers take them in any order (`Workers`), and they stop when one of them finds the pass cancelled.
`Pass.ByWorkers` holds of all that can come of a pass in this way.  It is only ever what `Pass.run`
gives, which takes the documents in order (`Pass.byWorkers_iff`).
-/

namespace PubSweep

open Syntax

/-! ### Workers -/

section Workers

variable {α β : Type} (stop : α → Bool) (work : α → β) (items : List α)

/-- Workers that share some items.  In any order they take an item that is still free, ask whether
to stop, and put what they make of the item in its slot. -/
inductive Workers : (slots : List (Option β)) → (result : Option (List β)) → Prop
  | stopped {slots : List (Option β)} {i : Nat} {a : α} (hitem : items[i]? = some a)
      (hfree : slots[i]? = some none) (hstop : stop a = true) : Workers slots none
  | worked {slots : List (Option β)} {result : Option (List β)} {i : Nat} {a : α}
      (hitem : items[i]? = some a) (hfree : slots[i]? = some none) (hgo : stop a = false)
      (hrest : Workers (slots.set i (some (work a))) result) : Workers slots result
  | finished {results : List β} : Workers (results.map some) (some results)

/-- A slot is free, or holds what is made of its item, at which nobody was told to stop. -/
structure Filled (slots : List (Option β)) : Prop where
  length : slots.length = items.length
  slot : ∀ (i : Nat) (a : α), items[i]? = some a →
    slots[i]? = some none ∨ (slots[i]? = some (some (work a)) ∧ stop a = false)

variable {stop work items}

theorem Filled.set {slots : List (Option β)} (h : Filled stop work items slots) {i : Nat} {a : α}
    (hitem : items[i]? = some a) (hgo : stop a = false) :
    Filled stop work items (slots.set i (some (work a))) := by
  refine ⟨by rw [List.length_set, h.length], ?_⟩
  intro j b hb
  by_cases hij : i = j
  · subst hij
    have hab : a = b := Option.some.inj (hitem.symm.trans hb)
    subst hab
    have hlt : i < slots.length := by
      rw [h.length]
      exact (List.getElem?_eq_some_iff.mp hitem).1
    exact Or.inr ⟨List.getElem?_set_self hlt, hgo⟩
  · rw [List.getElem?_set_ne hij]
    exact h.slot j b hb

/-- Slots that all hold something hold what is made of the items. -/
theorem Filled.eq_map {results : List β} (h : Filled stop work items (results.map some)) :
    results = items.map work ∧ ∀ a ∈ items, stop a = false := by
  have hslot : ∀ (i : Nat) (a : α), items[i]? = some a →
      results[i]? = some (work a) ∧ stop a = false := by
    intro i a ha
    simpa using h.slot i a ha
  constructor
  · have hlength : results.length = items.length := by simpa using h.length
    apply List.ext_getElem?
    intro i
    rw [List.getElem?_map]
    cases ha : items[i]? with
    | some a => exact (hslot i a ha).1
    | none =>
        rw [List.getElem?_eq_none_iff] at ha
        exact List.getElem?_eq_none (by omega)
  · intro a ha
    obtain ⟨i, hi⟩ := List.getElem?_of_mem ha
    exact (hslot i a hi).2

theorem filled_free (stop : α → Bool) (work : α → β) (items : List α) :
    Filled stop work items (items.map fun _ => none) := by
  refine ⟨List.length_map _, ?_⟩
  intro i a ha
  exact Or.inl (by rw [List.getElem?_map, ha]; rfl)

/-- However workers share their items, they stop if one of them is told to, and else they put down
what is made of all items, in the order of the items. -/
theorem Workers.result_eq {slots : List (Option β)} {result : Option (List β)}
    (h : Workers stop work items slots result) (hslots : Filled stop work items slots) :
    result = if items.any stop then none else some (items.map work) := by
  induction h with
  | stopped hitem _ hstop =>
      rw [if_pos (List.any_eq_true.mpr ⟨_, List.mem_of_getElem? hitem, hstop⟩)]
  | worked hitem _ hgo _ ih => exact ih (hslots.set hitem hgo)
  | finished =>
      obtain ⟨hresults, hgo⟩ := hslots.eq_map
      rw [if_neg (by simpa using hgo), hresults]

/-- One worker alone can take the items that are left in order. -/
theorem exists_workers (stop : α → Bool) (work : α → β) (done rest : List α) :
    ∃ result, Workers stop work (done ++ rest)
      ((done.map fun a => some (work a)) ++ rest.map fun _ => none) result := by
  induction rest generalizing done with
  | nil =>
      have h : Workers stop work done ((done.map work).map some) (some (done.map work)) := .finished
      exact ⟨_, by simpa [Function.comp_def] using h⟩
  | cons a rest ih =>
      have hitem : (done ++ a :: rest)[done.length]? = some a := by
        simp
      have hfree : ((done.map fun a => some (work a)) ++
          (a :: rest).map fun _ => none)[done.length]? = some none := by
        simp
      cases hstop : stop a with
      | true => exact ⟨none, .stopped hitem hfree hstop⟩
      | false =>
          obtain ⟨result, hrest⟩ := ih (done ++ [a])
          refine ⟨result, .worked hitem hfree hstop ?_⟩
          simpa using hrest

variable (stop work items) in
/-- What workers can come to when all items are free. -/
def WorkedOff (result : Option (List β)) : Prop :=
  Workers stop work items (items.map fun _ => none) result

theorem workedOff_iff {result : Option (List β)} :
    WorkedOff stop work items result ↔
      result = if items.any stop then none else some (items.map work) := by
  refine ⟨fun h => h.result_eq (filled_free stop work items), ?_⟩
  rintro rfl
  obtain ⟨result, h⟩ : ∃ result, Workers stop work items (items.map fun _ => none) result :=
    exists_workers stop work [] items
  rw [← h.result_eq (filled_free stop work items)]
  exact h

end Workers

theorem any_snd_zipIdx (docs : List Document) (interrupted : Nat → Bool) :
    (docs.zipIdx.any fun (_, i) => interrupted i) = (List.range docs.length).any interrupted := by
  have h : docs.zipIdx.map Prod.snd = List.range docs.length := by
    rw [List.zipIdx_map_snd, List.range_eq_range']
  rw [← h, List.any_map]
  rfl

namespace Collector

/-- The mistake of a caller that asks for a rule and a fix, if it is one. -/
def refusal (c : Collector) (rule : RuleId) (fix : FixId) : Option CollectError :=
  match c.rules.find? (·.id = rule) with
  | none => some (.unknownRule rule)
  | some _ =>
    if fix.rule ≠ rule then some (.fixRuleMismatch fix rule)
    else if !(c.proposers.filter (·.rule = rule)).any (·.fix = fix) then some (.noProposer fix)
    else none

variable {c : Collector} {rule : RuleId} {fix : FixId}

/-- A mistake of the caller is found before any document is looked at. -/
theorem collect_of_refusal {e : CollectError} (h : c.refusal rule fix = some e)
    (project : Project) (interrupted : Nat → Bool) :
    c.collect project rule fix interrupted = .error e ∧ e ≠ .cancelled := by
  rw [refusal] at h
  rw [collect]
  generalize c.rules.find? (·.id = rule) = found at h ⊢
  cases found with
  | none =>
      cases h
      exact ⟨rfl, nofun⟩
  | some r =>
      change (if fix.rule ≠ rule then _ else _) = _ at h
      change (if fix.rule ≠ rule then _ else _) = _ ∧ _
      split at h
      case isTrue hrule =>
        cases h
        rw [if_pos hrule]
        exact ⟨rfl, nofun⟩
      case isFalse hrule =>
        rw [if_neg hrule]
        split at h
        case isTrue hfix =>
          cases h
          rw [if_pos hfix]
          exact ⟨rfl, nofun⟩
        case isFalse => cases h

/-- Without a mistake of the caller all documents are scanned, unless one of the scans is found
cancelled. -/
theorem collect_of_refusal_eq_none (h : c.refusal rule fix = none) :
    ∃ r, c.rules.find? (·.id = rule) = some r ∧ ∀ (project : Project) (interrupted : Nat → Bool),
      c.collect project rule fix interrupted =
        if (List.range project.documents.length).any interrupted then .error .cancelled
        else .ok (.ofScans rule fix (project.documents.map
          (scanDocument project.name r (c.proposers.filter (·.rule = rule)) fix))) := by
  rw [refusal] at h
  cases hfind : c.rules.find? (·.id = rule) with
  | none =>
      rw [hfind] at h
      cases h
  | some r =>
      rw [hfind] at h
      change (if fix.rule ≠ rule then _ else _) = _ at h
      split at h
      case isTrue => cases h
      case isFalse hrule =>
        split at h
        case isTrue => cases h
        case isFalse hfix =>
          refine ⟨r, rfl, ?_⟩
          intro project interrupted
          rw [collect, hfind]
          change (if fix.rule ≠ rule then _ else _) = _
          rw [if_neg hrule]
          change (if (!(c.proposers.filter (·.rule = rule)).any (·.fix = fix)) = true then _
            else _) = _
          rw [if_neg hfix]

theorem collect_eq_elim (h : c.refusal rule fix = none) {r : Rule}
    (hr : c.rules.find? (·.id = rule) = some r) (project : Project) (interrupted : Nat → Bool) :
    c.collect project rule fix interrupted =
      (if project.documents.zipIdx.any fun (_, i) => interrupted i then none
      else some (project.documents.zipIdx.map fun (d, _) =>
        scanDocument project.name r (c.proposers.filter (·.rule = rule)) fix d)).elim
          (.error .cancelled) fun scans => .ok (.ofScans rule fix scans) := by
  obtain ⟨found, hfound, hcollect⟩ := collect_of_refusal_eq_none h
  cases hfound.symm.trans hr
  have hscans : (project.documents.zipIdx.map fun (d, _) => scanDocument project.name r
      (c.proposers.filter (·.rule = rule)) fix d) = project.documents.map
        (scanDocument project.name r (c.proposers.filter (·.rule = rule)) fix) := by
    conv => rhs; rw [← List.zipIdx_map_fst 0 project.documents, List.map_map]
    rfl
  rw [hcollect, any_snd_zipIdx, hscans]
  split <;> rfl

/-- The answers of a collector when workers share the documents.  A mistake of the caller is found
before any worker begins. -/
inductive ByWorkers (c : Collector) (project : Project) (rule : RuleId) (fix : FixId)
    (interrupted : Nat → Bool) : Except CollectError Collection → Prop
  | refused {e : CollectError} (hrefusal : c.refusal rule fix = some e) :
      ByWorkers c project rule fix interrupted (.error e)
  | scanned {r : Rule} {result : Option (List DocumentScan)} (hrefusal : c.refusal rule fix = none)
      (hrule : c.rules.find? (·.id = rule) = some r)
      (hresult : WorkedOff (fun (_, i) => interrupted i)
        (fun (d, _) => scanDocument project.name r (c.proposers.filter (·.rule = rule)) fix d)
        project.documents.zipIdx result) :
      ByWorkers c project rule fix interrupted
        (result.elim (.error .cancelled) fun scans => .ok (.ofScans rule fix scans))

theorem byWorkers_iff {project : Project} {interrupted : Nat → Bool}
    {answer : Except CollectError Collection} :
    c.ByWorkers project rule fix interrupted answer ↔
      answer = c.collect project rule fix interrupted := by
  constructor
  · intro h
    cases h with
    | refused hrefusal => rw [(collect_of_refusal hrefusal project interrupted).1]
    | scanned hrefusal hrule hresult =>
        rw [collect_eq_elim hrefusal hrule, workedOff_iff.mp hresult]
  · rintro rfl
    cases hrefusal : c.refusal rule fix with
    | some e =>
        rw [(collect_of_refusal hrefusal project interrupted).1]
        exact .refused hrefusal
    | none =>
        obtain ⟨r, hrule, -⟩ := collect_of_refusal_eq_none hrefusal
        rw [collect_eq_elim hrefusal hrule]
        exact .scanned hrefusal hrule (workedOff_iff.mpr rfl)

end Collector

/-- The answers of a batch when workers share the documents with edits. -/
def AppliedByWorkers (parser : Parser) (project : Project) (batch : FixBatch)
    (interrupted : Nat → Bool) (answer : Option Applied) : Prop :=
  ∃ result, WorkedOff (fun (_, i) => interrupted i) (fun (d, _) => editOutcome parser batch d)
      (project.documents.zipIdx.filter fun (d, _) => !(batch.editsFor d.id).isEmpty) result ∧
    answer = result.map (.ofOutcomes project)

theorem appliedByWorkers_iff {parser : Parser} {project : Project} {batch : FixBatch}
    {interrupted : Nat → Bool} {answer : Option Applied} :
    AppliedByWorkers parser project batch interrupted answer ↔
      answer = applyBatch parser project batch interrupted := by
  simp only [AppliedByWorkers, workedOff_iff, exists_eq_left, applyBatch]
  split <;> rfl

namespace Pass

section

variable (p : Pass) (rule : RuleId) (fix : FixId) (mode : Mode) (interrupt : Interrupt)

/-- What can come of a project when workers share its documents, first to scan and then to edit
them. -/
inductive ProjectByWorkers (index : Nat) (project : Project) :
    Except CollectError (Option ProjectOutcome) → Prop
  | refused {e : CollectError} (hne : e ≠ .cancelled)
      (hscan : p.collector.ByWorkers project rule fix (fun d => interrupt (.scan index d))
        (.error e)) :
      ProjectByWorkers index project (.error e)
  | stopped (hscan : p.collector.ByWorkers project rule fix (fun d => interrupt (.scan index d))
        (.error .cancelled)) :
      ProjectByWorkers index project (.ok none)
  | checked {c : Collection} (hmode : mode = .check)
      (hscan : p.collector.ByWorkers project rule fix (fun d => interrupt (.scan index d))
        (.ok c)) :
      ProjectByWorkers index project (.ok (some (.checked project c)))
  | fixed {c : Collection} {answer : Option Applied} (hmode : mode = .fix)
      (hscan : p.collector.ByWorkers project rule fix (fun d => interrupt (.scan index d)) (.ok c))
      (happly : AppliedByWorkers p.parser project c.batch (fun d => interrupt (.apply index d))
        answer) :
      ProjectByWorkers index project (.ok (answer.map (.fixed project c)))

/-- What can come of projects, which are gone through one after the other. -/
inductive ProjectsByWorkers :
    Nat → List Project → Except CollectError (Option (List ProjectOutcome)) → Prop
  | nil {index : Nat} : ProjectsByWorkers index [] (.ok (some []))
  | refused {index : Nat} {project : Project} {rest : List Project} {e : CollectError}
      (hproject : ProjectByWorkers p rule fix mode interrupt index project (.error e)) :
      ProjectsByWorkers index (project :: rest) (.error e)
  | stopped {index : Nat} {project : Project} {rest : List Project}
      (hproject : ProjectByWorkers p rule fix mode interrupt index project (.ok none)) :
      ProjectsByWorkers index (project :: rest) (.ok none)
  | cons {index : Nat} {project : Project} {rest : List Project} {o : ProjectOutcome}
      {answer : Except CollectError (Option (List ProjectOutcome))}
      (hproject : ProjectByWorkers p rule fix mode interrupt index project (.ok (some o)))
      (hrest : ProjectsByWorkers (index + 1) rest answer) :
      ProjectsByWorkers index (project :: rest) (answer.map (·.map (o :: ·)))

/-- What can come of a pass. -/
inductive ByWorkers (projects : List Project) (stamp : Stamp) : Except CollectError Outcome → Prop
  | refused {e : CollectError}
      (h : ProjectsByWorkers p rule fix mode interrupt 0 projects (.error e)) :
      ByWorkers projects stamp (.error e)
  | cancelled (h : ProjectsByWorkers p rule fix mode interrupt 0 projects (.ok none)) :
      ByWorkers projects stamp
        (.ok (Pass.cancelled projects (Report.start stamp p.tool rule fix) stamp.endedAt))
  | finished {outcomes : List ProjectOutcome}
      (h : ProjectsByWorkers p rule fix mode interrupt 0 projects (.ok (some outcomes))) :
      ByWorkers projects stamp (.ok (p.finished mode projects (Report.start stamp p.tool rule fix)
        stamp.endedAt outcomes))

end

variable {p : Pass} {rule : RuleId} {fix : FixId} {mode : Mode} {interrupt : Interrupt}

theorem projectByWorkers_iff {index : Nat} {project : Project}
    {answer : Except CollectError (Option ProjectOutcome)} :
    p.ProjectByWorkers rule fix mode interrupt index project answer ↔
      answer = p.runProject rule fix mode interrupt index project := by
  rw [runProject]
  constructor
  · intro h
    cases h with
    | refused hne hscan =>
        rw [← Collector.byWorkers_iff.mp hscan]
        rename_i e
        cases e <;> first | rfl | exact absurd rfl hne
    | stopped hscan => rw [← Collector.byWorkers_iff.mp hscan]
    | checked hmode hscan =>
        subst hmode
        rw [← Collector.byWorkers_iff.mp hscan]
    | fixed hmode hscan happly =>
        subst hmode
        rename_i c applied
        rw [← Collector.byWorkers_iff.mp hscan]
        dsimp only
        rw [← appliedByWorkers_iff.mp happly]
        cases applied <;> rfl
  · rintro rfl
    cases hcollect : p.collector.collect project rule fix fun d => interrupt (.scan index d) with
    | error e =>
        have hscan := Collector.byWorkers_iff.mpr hcollect.symm
        cases e with
        | cancelled => exact .stopped hscan
        | unknownRule => exact .refused nofun hscan
        | fixRuleMismatch => exact .refused nofun hscan
        | noProposer => exact .refused nofun hscan
    | ok c =>
        have hscan := Collector.byWorkers_iff.mpr hcollect.symm
        cases mode with
        | check => exact .checked rfl hscan
        | fix =>
            dsimp only
            have h := ProjectByWorkers.fixed rfl hscan (appliedByWorkers_iff.mpr rfl)
            rcases happly : applyBatch p.parser project c.batch
              fun d => interrupt (.apply index d) with _ | applied <;> rw [happly] at h <;> exact h

theorem projectsByWorkers_iff {index : Nat} {projects : List Project}
    {answer : Except CollectError (Option (List ProjectOutcome))} :
    p.ProjectsByWorkers rule fix mode interrupt index projects answer ↔
      answer = p.runProjects rule fix mode interrupt index projects := by
  induction projects generalizing index answer with
  | nil =>
      constructor
      · rintro ⟨⟩
        rfl
      · rintro rfl
        exact .nil
  | cons project rest ih =>
      rw [runProjects]
      constructor
      · intro h
        cases h with
        | refused hproject => rw [← projectByWorkers_iff.mp hproject]
        | stopped hproject => rw [← projectByWorkers_iff.mp hproject]
        | cons hproject hrest =>
            rw [← projectByWorkers_iff.mp hproject, ← ih.mp hrest]
            rename_i answer
            rcases answer with e | _ | os <;> rfl
      · rintro rfl
        rcases hproject : p.runProject rule fix mode interrupt index project with e | _ | o
        · exact .refused (projectByWorkers_iff.mpr hproject.symm)
        · exact .stopped (projectByWorkers_iff.mpr hproject.symm)
        · have h := ProjectsByWorkers.cons (projectByWorkers_iff.mpr hproject.symm) (ih.mpr rfl)
          dsimp only
          rcases hrest : p.runProjects rule fix mode interrupt (index + 1) rest with e | _ | os <;>
            rw [hrest] at h <;> exact h

/-- However workers share the documents, a pass comes to what it comes to in order. -/
theorem byWorkers_iff {projects : List Project} {stamp : Stamp}
    {answer : Except CollectError Outcome} :
    p.ByWorkers rule fix mode interrupt projects stamp answer ↔
      answer = p.run projects rule fix mode stamp interrupt := by
  rw [run]
  constructor
  · intro h
    cases h with
    | refused h => rw [← projectsByWorkers_iff.mp h]
    | cancelled h => rw [← projectsByWorkers_iff.mp h]
    | finished h => rw [← projectsByWorkers_iff.mp h]
  · rintro rfl
    rcases hruns : p.runProjects rule fix mode interrupt 0 projects with e | _ | os
    · exact .refused (projectsByWorkers_iff.mpr hruns.symm)
    · exact .cancelled (projectsByWorkers_iff.mpr hruns.symm)
    · exact .finished (projectsByWorkers_iff.mpr hruns.symm)

end Pass

end PubSweep
