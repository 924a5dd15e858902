import Mathlib.Data.List.Forall2
import Mathlib.Data.List.Infix
import PubSweep.Proofs.Files.Identities
import PubSweep.Proofs.Pass.Agreement

/-!
What is written if a writer refuses some paths.

`exists_stopsAtRefusal` follows a run of calls up to the first that fails, and
`documentCalls_of_run` says which calls write the documents behind a pass.  `writes_stop_at_refusal`
puts both together: what is written is a front part of what a writer without faults would write, and
the answer tells whether it is all of it.  The documents come in the order of their paths, unless
two of a project share an identity (`documentCalls_out_of_order`).
-/

namespace PubSweep

open Syntax

/-! ### Runs of calls -/

section

variable {σ ε : Type}

/-- What a run of calls answers: how many calls were made, or which one failed. -/
def WriteResult.answer (r : WriteResult σ ε) : Except (WriteCall × ε) Nat :=
  match r.error with
  | some e => .error e
  | none => .ok r.done

variable (attempt : σ → WriteCall → σ × Option ε)

/-- A writer makes some calls one after the other, each of them with success. -/
inductive Makes : σ → List WriteCall → σ → Prop
  | nil (s : σ) : Makes s [] s
  | cons {s next last : σ} {call : WriteCall} {calls : List WriteCall}
      (hcall : attempt s call = (next, none)) (hrest : Makes next calls last) :
      Makes s (call :: calls) last

/-- How a writer that refuses some paths comes through some calls: `made` are those that succeed,
and `r` is the result. -/
structure StopsAtRefusal (refuses : Path → Bool) (calls made : List WriteCall) (s : σ)
    (r : WriteResult σ ε) : Prop where
  isFront : made <+: calls
  allowed : ∀ call ∈ made, refuses call.path = false
  longest : ∀ front, front <+: calls → (∀ call ∈ front, refuses call.path = false) → front <+: made
  /-- After the calls that succeed, the writer is asked for one more at most, which it refuses. -/
  makes : ∃ last, Makes attempt s made last ∧
    (made = calls ∧ r.state = last ∨ ∃ call, made ++ [call] <+: calls ∧
      refuses call.path = true ∧ r.state = (attempt last call).1)
  ok_iff : ∀ n, r.answer = .ok n ↔
    (∀ call ∈ calls, refuses call.path = false) ∧ n = calls.length
  error_iff : (∃ e, r.answer = .error e) ↔ made ≠ calls

variable {attempt} {refuses : Path → Bool}
  (hrefuses : ∀ s call, (attempt s call).2.isSome = refuses call.path)

include hrefuses

/-- A run makes calls until one is refused. -/
theorem perform_spec (calls : List WriteCall) (s : σ) :
    ∃ made last, Makes attempt s made last ∧ (∀ call ∈ made, refuses call.path = false) ∧
      (calls = made ∧ perform attempt calls s = ⟨last, made.length, none⟩ ∨
        ∃ call more next e, calls = made ++ call :: more ∧ refuses call.path = true ∧
          attempt last call = (next, some e) ∧
          perform attempt calls s = ⟨next, made.length, some (call, e)⟩) := by
  induction calls generalizing s with
  | nil => exact ⟨[], s, .nil s, by simp, Or.inl ⟨rfl, rfl⟩⟩
  | cons call calls ih =>
      have hcall := hrefuses s call
      rcases hattempt : attempt s call with ⟨next, _ | e⟩
      · rw [hattempt] at hcall
        obtain ⟨made, last, hmakes, hallowed, hends⟩ := ih next
        refine ⟨call :: made, last, .cons hattempt hmakes,
          List.forall_mem_cons.mpr ⟨hcall.symm, hallowed⟩, ?_⟩
        rcases hends with ⟨rfl, hdone⟩ | ⟨refused, more, after, e, rfl, hrefused, hlast, hdone⟩
        · exact Or.inl ⟨rfl, by simp only [perform, hattempt, hdone, List.length_cons]⟩
        · exact Or.inr ⟨refused, more, after, e, rfl, hrefused, hlast,
            by simp only [perform, hattempt, hdone, List.length_cons]⟩
      · rw [hattempt] at hcall
        exact ⟨[], s, .nil s, by simp, Or.inr ⟨call, calls, next, e, rfl, hcall.symm, hattempt,
          by simp only [perform, hattempt, List.length_nil]⟩⟩

theorem exists_stopsAtRefusal (calls : List WriteCall) (s : σ) :
    ∃ made, StopsAtRefusal attempt refuses calls made s (perform attempt calls s) := by
  obtain ⟨made, last, hmakes, hallowed, ⟨rfl, hdone⟩ |
    ⟨call, more, next, e, rfl, hrefused, hlast, hdone⟩⟩ := perform_spec hrefuses calls s
  · refine ⟨calls, List.prefix_rfl, hallowed, fun _ hfront _ => hfront, ?_, ?_, ?_⟩
    · exact ⟨last, hmakes, Or.inl ⟨rfl, by rw [hdone]⟩⟩
    · intro n
      rw [hdone, and_iff_right hallowed]
      exact ⟨fun h => (Except.ok.inj h).symm, fun h => congrArg Except.ok h.symm⟩
    · rw [hdone]
      simp [WriteResult.answer]
  · have hcut : ¬ ∀ c ∈ made ++ call :: more, refuses c.path = false := by
      intro h
      rw [h call (by simp)] at hrefused
      cases hrefused
    refine ⟨made, List.prefix_append _ _, hallowed, ?_, ?_, ?_, ?_⟩
    · intro front hfront hfree
      rcases List.prefix_or_prefix_of_prefix hfront (List.prefix_append made (call :: more)) with
        hle | ⟨beyond, rfl⟩
      · exact hle
      · rw [List.prefix_append_right_inj] at hfront
        rcases beyond with _ | ⟨first, beyond⟩
        · rw [List.append_nil]
        · -- a longer front has the refused call in it
          have hfirst := (List.cons_prefix_cons.mp hfront).1
          rw [hfirst] at hfree
          rw [hfree call (by simp)] at hrefused
          cases hrefused
    · refine ⟨last, hmakes, Or.inr ⟨call, ?_, hrefused, by rw [hdone, hlast]⟩⟩
      rw [List.prefix_append_right_inj]
      exact List.cons_prefix_cons.mpr ⟨rfl, List.nil_prefix⟩
    · intro n
      rw [hdone]
      exact ⟨nofun, fun h => absurd h.1 hcut⟩
    · rw [hdone]
      simp [WriteResult.answer]

end

/-! ### The calls of a pass -/

/-- A project behind a pass: it has the same root, and in the place of each document that very
document, or a new one at the path of a document with the same identity. -/
structure Project.Follows (before after : Project) : Prop where
  root : after.root = before.root
  documents : List.Forall₂ (fun d e => e = d ∨ (e.revision ≠ d.revision ∧
    ∃ c ∈ before.documents, c.id = d.id ∧ e.path = c.path)) before.documents after.documents

theorem Project.follows_refl (q : Project) : q.Follows q :=
  ⟨rfl, List.forall₂_same.mpr fun _ _ => Or.inl rfl⟩

theorem follows_appliedBatch (parser : Parser) (batch : FixBatch) (q : Project) :
    q.Follows (appliedBatch parser batch q).project := by
  refine ⟨rfl, (Project.forall₂_replaceIn q.documents _).imp ?_⟩
  rintro d e (hsame | ⟨new, hnew, rfl⟩)
  · exact Or.inl hsame
  · refine Or.inr ⟨Nat.succ_ne_self _, ?_⟩
    -- what comes here was made of a document of the project, perhaps not of `d`
    obtain ⟨o, ho, hchanged⟩ := List.mem_filterMap.mp hnew
    obtain ⟨c, hc, rfl⟩ := List.mem_map.mp (List.mem_reverse.mp ho)
    obtain ⟨_, hresult, heq⟩ := Option.map_eq_some_iff.mp hchanged
    obtain ⟨hid, rfl⟩ := Prod.mk.inj heq
    obtain ⟨-, tree, rfl⟩ := changed?_eq_some hresult
    exact ⟨c, (List.mem_filter.mp hc).1, hid, rfl⟩

/-- The documents of a project whose text is another one behind a pass, each with the document in
its place. -/
def Project.changed (before after : Project) : List (Document × Document) :=
  (before.documents.zip after.documents).filter fun (d, e) => d.text ≠ e.text

/-- In which order, and where, the documents in the places of changed ones are written. -/
structure Project.InOrder (before after : Project) : Prop where
  /-- Of a project in the order of its paths, the places are in the order of their paths. -/
  places : (before.documents.Pairwise fun a b => (a.path.compare b.path).isLE) →
    (before.changed after).Pairwise fun x y => (x.1.path.compare y.1.path).isLE
  /-- What is in a place is written to the path of a document with the identity of that place. -/
  shared : ∀ x ∈ before.changed after, ∃ c ∈ before.documents, c.id = x.1.id ∧ x.2.path = c.path
  /-- If the documents have different identities, that is the path of the place. -/
  own : (before.documents.map Document.id).Nodup →
    ∀ x ∈ before.changed after, x.2.path = x.1.path

/-- The calls that write each of these documents once, with its whole text, project by project. -/
def changedCalls (before after : List Project) : List WriteCall :=
  (before.zip after).flatMap fun (q, r) =>
    (q.changed r).map fun (_, e) => .writeFile (q.root.join e.path) e.text

theorem eq_of_mem_zip_self {α : Type} {as : List α} {x : α × α} (h : x ∈ as.zip as) :
    x.1 = x.2 := by
  rw [List.zip_eq_zipWith, List.zipWith_self, List.mem_map] at h
  obtain ⟨_, -, rfl⟩ := h
  rfl

/-- Nothing has changed if the projects are the same. -/
theorem changedCalls_self (projects : List Project) : changedCalls projects projects = [] := by
  rw [changedCalls, List.flatMap_eq_nil_iff]
  rintro ⟨q, r⟩ hq
  cases eq_of_mem_zip_self hq
  rw [List.map_eq_nil_iff, Project.changed, List.filter_eq_nil_iff]
  intro x hx
  simp [eq_of_mem_zip_self hx]

theorem Project.Follows.inOrder {before after : Project} (h : before.Follows after) :
    before.InOrder after := by
  obtain ⟨hlength, hplace⟩ := List.forall₂_iff_zip.mp h.documents
  have hshared : ∀ x ∈ before.changed after,
      ∃ c ∈ before.documents, c.id = x.1.id ∧ x.2.path = c.path := by
    rintro ⟨d, e⟩ hx
    obtain ⟨hzip, htext⟩ := List.mem_filter.mp hx
    rcases hplace hzip with rfl | ⟨-, hstored⟩
    · simp at htext
    · exact hstored
  refine ⟨?_, hshared, ?_⟩
  · intro hsorted
    rw [← List.map_fst_zip hlength.le, List.pairwise_map] at hsorted
    exact hsorted.filter _
  · intro hids x hx
    obtain ⟨c, hc, hid, hpath⟩ := hshared x hx
    have hmem : x.1 ∈ before.documents := (List.of_mem_zip (List.mem_filter.mp hx).1).1
    rw [hpath, List.inj_on_of_nodup_map hids hc hmem hid]

namespace Pass

section

variable {p : Pass} {rule : RuleId} {fix : FixId} {mode : Mode} {interrupt : Interrupt}

theorem follows_of_runProject {index : Nat} {q : Project} {o : ProjectOutcome}
    (h : p.runProject rule fix mode interrupt index q = .ok (some o)) : q.Follows o.project := by
  rw [runProject] at h
  split at h
  · cases h
  · cases h
  · cases mode with
    | check =>
        cases h
        exact q.follows_refl
    | fix =>
        simp only at h
        split at h
        · cases h
        · rename_i applied happlied
          cases h
          rw [applyBatch_eq_some _ _ happlied]
          exact follows_appliedBatch _ _ q

theorem follows_of_runProjects {index : Nat} {projects : List Project} {os : List ProjectOutcome}
    (h : p.runProjects rule fix mode interrupt index projects = .ok (some os)) :
    List.Forall₂ Project.Follows projects (os.map ProjectOutcome.project) := by
  induction projects generalizing index os with
  | nil =>
      cases h
      exact .nil
  | cons q projects ih =>
      rw [runProjects] at h
      split at h
      · cases h
      · cases h
      · rename_i o hproject
        split at h
        · cases h
        · cases h
        · rename_i os' hrest
          cases h
          exact .cons (follows_of_runProject hproject) (ih hrest)

/-- Behind a pass, interrupted or not, there is a project for each given one. -/
theorem follows_of_run {projects : List Project} {stamp : Stamp} {o : Outcome}
    (h : p.run projects rule fix mode stamp interrupt = .ok o) :
    List.Forall₂ Project.Follows projects o.projects := by
  simp only [run] at h
  split at h
  · cases h
  · cases h
    exact List.forall₂_same.mpr fun q _ => q.follows_refl
  · cases h
    exact follows_of_runProjects ‹_›

/-- The calls that write documents behind a pass are those for the changed ones. -/
theorem documentCalls_of_run {projects : List Project} {stamp : Stamp} {o : Outcome}
    (h : p.run projects rule fix mode stamp interrupt = .ok o) :
    o.documentCalls projects = changedCalls projects o.projects := by
  have hfollows := List.forall₂_iff_zip.mp (follows_of_run h)
  rw [Outcome.documentCalls]
  split
  case isTrue hcancelled =>
    rw [(untouched_of_run h hcancelled).projects]
    exact (changedCalls_self projects).symm
  case isFalse =>
    rw [pairs, List.filterMap_flatMap]
    apply List.flatMap_congr
    rintro ⟨q, after⟩ hq
    obtain ⟨hroot, hdocuments⟩ := hfollows.2 hq
    simp only [Project.changed, List.filterMap_map]
    rw [← List.filterMap_eq_map, List.filterMap_filter]
    apply List.filterMap_congr
    rintro ⟨d, e⟩ hde
    rcases (List.forall₂_iff_zip.mp hdocuments).2 hde with rfl | ⟨hnew, -⟩
    · simp
    · by_cases htext : d.text = e.text
      · simp [htext]
      · simp [htext, Document.isShared, hroot, Ne.symm hnew]

end

/-- What a writer that refuses some paths writes behind a pass.  First come the documents whose text
is another one, each with its whole text; then the directory, the report in its two forms, and the
patch.  Of both, what succeeds is the longest front part without a refused path, and the answer
tells whether that is all.  The documents come project by project, in the order of their places. -/
theorem writes_stop_at_refusal (p : Pass) (projects : List Project) (rule : RuleId) (fix : FixId)
    (mode : Mode) (stamp : Stamp) (interrupt : Interrupt) {o : Outcome}
    (hrun : p.run projects rule fix mode stamp interrupt = .ok o) (directory : Path) {σ ε : Type}
    (attempt : σ → WriteCall → σ × Option ε) (refuses : Path → Bool)
    (hrefuses : ∀ s call, (attempt s call).2.isSome = refuses call.path) (s : σ) :
    let documents := perform attempt (o.documentCalls projects) s
    let artifacts := perform attempt (o.artifactCalls directory) documents.state
    (∃ made, StopsAtRefusal attempt refuses (changedCalls projects o.projects) made s documents) ∧
    (∃ made, StopsAtRefusal attempt refuses
      [.makeDirectory directory,
        .writeFile (directory.join ⟨"report.json"⟩) o.report.toJson.pretty,
        .writeFile (directory.join ⟨"report.md"⟩) o.report.toMarkdown,
        .writeFile (directory.join ⟨"patch.diff"⟩) o.patch]
      made documents.state artifacts) ∧
    List.Forall₂ Project.InOrder projects o.projects := by
  intro documents artifacts
  refine ⟨?_, ?_, (follows_of_run hrun).imp fun _ _ => Project.Follows.inOrder⟩
  · rw [← documentCalls_of_run hrun]
    exact exists_stopsAtRefusal hrefuses _ s
  · exact exists_stopsAtRefusal hrefuses _ _

theorem exists_ok_of_map_eq_some {ε α β : Type} {r : Except ε α} {f : α → β} {b : β}
    (h : r.toOption.map f = some b) : ∃ a, r = .ok a ∧ f a = b := by
  cases r with
  | error e => cases h
  | ok a => exact ⟨a, rfl, Option.some.inj h⟩

/-- A writer that keeps a list of its calls fails at those paths that it refuses. -/
theorem isSome_recordCall (refuses : Path → Bool) (log : List WriteCall) (call : WriteCall) :
    (recordCall refuses log call).2.isSome = refuses call.path := by
  rw [recordCall]
  cases refuses call.path <;> rfl

/-- Of four files, two are changed.  The second of them and one file of the report are refused. -/
theorem writes_stop_at_refusal_twins :
    let p := Visibility.pass Visibility.structParser ItemKind.all default (some ⟨"/"⟩)
    let refuses : Path → Bool := fun path =>
      decide (path.text ∈ ["/twin/a.rs", "out/report.md"])
    ∃ o, p.run twinProjects .missingVisibility .makePub .fix default .never = .ok o ∧
      let documents := perform (recordCall refuses) (o.documentCalls twinProjects) []
      (∃ made, StopsAtRefusal (recordCall refuses) refuses
        [.writeFile ⟨"/demo/a.rs"⟩ "pub struct A;", .writeFile ⟨"/twin/a.rs"⟩ "pub struct A;"]
        made [] documents) ∧
      ∃ made, StopsAtRefusal (recordCall refuses) refuses
        [.makeDirectory ⟨"out"⟩, .writeFile ⟨"out/report.json"⟩ o.report.toJson.pretty,
          .writeFile ⟨"out/report.md"⟩ o.report.toMarkdown,
          .writeFile ⟨"out/patch.diff"⟩ o.patch]
        made documents.state
        (perform (recordCall refuses) (o.artifactCalls ⟨"out"⟩) documents.state) := by
  intro p refuses
  obtain ⟨o, hrun, hcalls⟩ := exists_ok_of_map_eq_some
    (show (p.run twinProjects .missingVisibility .makePub .fix default .never).toOption.map
        (fun o => changedCalls twinProjects o.projects) =
      some [.writeFile ⟨"/demo/a.rs"⟩ "pub struct A;", .writeFile ⟨"/twin/a.rs"⟩ "pub struct A;"]
    by decide +kernel)
  obtain ⟨hdocuments, hartifacts, -⟩ := writes_stop_at_refusal p twinProjects .missingVisibility
    .makePub .fix default .never hrun ⟨"out"⟩ (recordCall refuses) refuses
    (isSome_recordCall refuses) []
  rw [hcalls] at hdocuments
  exact ⟨o, hrun, hdocuments, hartifacts⟩

/-- Three files, of which the first and the last share an identity. -/
def sharedProject : Project :=
  let document path text := Document.parse Visibility.structParser "demo" ⟨path⟩ text
  { name := "demo"
    root := ⟨"/repo"⟩
    documents :=
      [document "a/x.rs" "pub(crate) struct A;", document "a/y.rs" "struct A;",
        document "a\\x.rs" "struct A;"] }

/-- Their paths are the same with slashes in place of backslashes. -/
theorem not_nodup_sharedProject : ¬ (sharedProject.documents.map Document.id).Nodup := by
  have hslashes : (⟨"a/x.rs"⟩ : Path).toSlashes = (⟨"a\\x.rs"⟩ : Path).toSlashes := by decide
  have hshared : DocumentId.ofPath "demo" ⟨"a/x.rs"⟩ = DocumentId.ofPath "demo" ⟨"a\\x.rs"⟩ := by
    rw [DocumentId.ofPath, hslashes, DocumentId.ofPath]
  intro hnodup
  exact (List.nodup_cons.mp hnodup).1
    (List.mem_cons_of_mem _ (List.mem_singleton.mpr hshared))

/-- The new last file comes in the place of the first one, so it is written before the second.  If
it is refused, the second is not written, though its path comes first. -/
theorem documentCalls_out_of_order :
    let p := Visibility.pass Visibility.structParser ItemKind.all default none
    let refuses : Path → Bool := fun path => decide (path.text = "/repo/a\\x.rs")
    (sharedProject.documents.Pairwise fun a b => (a.path.compare b.path).isLE) ∧
      ¬ (sharedProject.documents.map Document.id).Nodup ∧
      (⟨"/repo/a/y.rs"⟩ : Path).compare ⟨"/repo/a\\x.rs"⟩ = .lt ∧
      ∃ o, p.run [sharedProject] .missingVisibility .makePub .fix default .never = .ok o ∧
        o.documentCalls [sharedProject] =
          [.writeFile ⟨"/repo/a\\x.rs"⟩ "pub struct A;",
            .writeFile ⟨"/repo/a/y.rs"⟩ "pub struct A;"] ∧
        (perform (recordCall refuses) (o.documentCalls [sharedProject]) []).state = [] := by
  intro p refuses
  obtain ⟨o, hrun, hcalls⟩ := exists_ok_of_map_eq_some
    (show (p.run [sharedProject] .missingVisibility .makePub .fix default .never).toOption.map
        (fun o => o.documentCalls [sharedProject]) =
      some [.writeFile ⟨"/repo/a\\x.rs"⟩ "pub struct A;",
        .writeFile ⟨"/repo/a/y.rs"⟩ "pub struct A;"]
    by decide +kernel)
  refine ⟨by decide +kernel, not_nodup_sharedProject, by decide, o, hrun, hcalls, ?_⟩
  rw [hcalls]
  rfl

end Pass

end PubSweep
