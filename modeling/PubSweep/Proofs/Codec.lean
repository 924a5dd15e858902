import PubSweep.Codec.Report
import PubSweep.Proofs.Json.Decode
import PubSweep.Proofs.Time.Text
import PubSweep.Proofs.Uuid

/-!
Findings, edits and reports are read back from their JSON.

For each record there is the list of its fields as they stand in its JSON, and from it that the
record is read back.  Only numbers and times put a condition on a record: a number has 64 bits, and
a time has a text of its own.
-/

namespace PubSweep

open Json

/-! ## Identities and names -/

theorem Uuid.isForm : IsForm toJson ofJson? fun _ => True :=
  isForm_text (fun u _ => u.parse?_render) fun _ _ _ => trivial

theorem Timestamp.isForm : IsForm toJson ofJson? IsValid :=
  isForm_text (fun _ => parse?_render_iff.mpr) fun _ _ => isValid_of_parse?

theorem RuleId.isForm : IsForm toJson ofJson? fun _ => True :=
  isForm_named fun r => by cases r; rfl

theorem FixId.isForm : IsForm toJson ofJson? fun _ => True :=
  isForm_named fun f => by cases f <;> rfl

theorem ItemKind.isForm : IsForm toJson ofJson? fun _ => True :=
  isForm_named fun k => by cases k <;> rfl

theorem FailureKind.isForm : IsForm toJson ofJson? fun _ => True :=
  isForm_named fun k => by cases k <;> rfl

theorem Path.isForm : IsForm toJson ofJson? fun _ => True where
  read_write _ := rfl
  of_read _ := trivial

/-! ## Findings and edits -/

namespace Span

/-- The offsets of a span have 64 bits. -/
structure Storable (s : Span) : Prop where
  start : s.start < wordLimit
  stop : s.stop < wordLimit

theorem fields?_toJson (s : Span) :
    fields? ["start", "end"] s.toJson = some [some (nat s.start), some (nat s.stop)] := by
  simp [toJson, fields?, List.lookup_cons]

theorem isForm : IsForm toJson ofJson? Storable := by
  have hword := isForm_nat.required
  refine isForm_record fields?_toJson ?_ ?_
  · intro s h
    dsimp only
    rw [hword.read_write h.start, hword.read_write h.stop]
    rfl
  · intro fs s h
    split at h
    · simp only [↓Option.bind_eq_bind, ↓Option.bind_eq_some_iff, Option.pure_def,
        Option.some.injEq] at h
      obtain ⟨start, hstart, stop, hstop, rfl⟩ := h
      exact ⟨hword.of_read hstart, hword.of_read hstop⟩
    · cases h

end Span

namespace Position

/-- The numbers of a position have 64 bits. -/
structure Storable (p : Position) : Prop where
  line : p.line < wordLimit
  column : p.column < wordLimit

theorem fields?_toJson (p : Position) :
    fields? ["line", "column"] p.toJson = some [some (nat p.line), some (nat p.column)] := by
  simp [toJson, fields?, List.lookup_cons]

theorem isForm : IsForm toJson ofJson? Storable := by
  have hword := isForm_nat.required
  refine isForm_record fields?_toJson ?_ ?_
  · intro p h
    dsimp only
    rw [hword.read_write h.line, hword.read_write h.column]
    rfl
  · intro fs p h
    split at h
    · simp only [↓Option.bind_eq_bind, ↓Option.bind_eq_some_iff, Option.pure_def,
        Option.some.injEq] at h
      obtain ⟨line, hline, column, hcolumn, rfl⟩ := h
      exact ⟨hword.of_read hline, hword.of_read hcolumn⟩
    · cases h

end Position

namespace Finding

/-- A finding whose place has numbers of 64 bits. -/
structure Storable (f : Finding) : Prop where
  span : f.span.Storable
  position : f.position.Storable

theorem fields?_toJson (f : Finding) :
    fields? ["rule", "document", "path", "span", "position", "item", "name"] f.toJson =
      some [some f.rule.toJson, some f.document.toJson, some f.path.toJson, some f.span.toJson,
        some f.position.toJson, some f.item.toJson, f.name.map string] := by
  simp [toJson, fields?, lookup_optionalMember, List.lookup_cons]

theorem isForm : IsForm toJson ofJson? Storable := by
  have hname := isForm_string.optional nofun
  refine isForm_record fields?_toJson ?_ ?_
  · intro f h
    dsimp only
    rw [RuleId.isForm.required.read_write trivial, Uuid.isForm.required.read_write trivial,
      Path.isForm.required.read_write trivial, Span.isForm.required.read_write h.span,
      Position.isForm.required.read_write h.position, ItemKind.isForm.required.read_write trivial,
      hname.read_write fun _ _ => trivial]
    rfl
  · intro fs f h
    split at h
    · simp only [↓Option.bind_eq_bind, ↓Option.bind_eq_some_iff, Option.pure_def,
        Option.some.injEq] at h
      obtain ⟨_, -, _, -, _, -, span, hspan, position, hposition, _, -, _, -, rfl⟩ := h
      exact ⟨Span.isForm.required.of_read hspan, Position.isForm.required.of_read hposition⟩
    · cases h

end Finding

namespace Edit

/-- An edit whose span and finding have numbers of 64 bits. -/
structure Storable (e : Edit) : Prop where
  span : e.span.Storable
  finding : e.finding.Storable

theorem fields?_toJson (e : Edit) :
    fields? ["id", "document", "span", "replacement", "fix", "finding"] e.toJson =
      some [some e.id.toJson, some e.document.toJson, some e.span.toJson,
        some (string e.replacement), some e.fix.toJson, some e.finding.toJson] := by
  simp [toJson, fields?, List.lookup_cons]

theorem isForm : IsForm toJson ofJson? Storable := by
  have hid := Uuid.isForm.required
  refine isForm_record fields?_toJson ?_ ?_
  · intro e h
    dsimp only
    rw [hid.read_write (a := e.id) trivial, hid.read_write (a := e.document) trivial,
      Span.isForm.required.read_write h.span, isForm_string.required.read_write trivial,
      FixId.isForm.required.read_write trivial, Finding.isForm.required.read_write h.finding]
    rfl
  · intro fs e h
    split at h
    · simp only [↓Option.bind_eq_bind, ↓Option.bind_eq_some_iff, Option.pure_def,
        Option.some.injEq] at h
      obtain ⟨_, -, _, -, span, hspan, _, -, _, -, finding, hfinding, rfl⟩ := h
      exact ⟨Span.isForm.required.of_read hspan, Finding.isForm.required.of_read hfinding⟩
    · cases h

end Edit

namespace RuleConfig

theorem fields?_toJson (c : RuleConfig) :
    fields? ["kinds"] c.toJson = some [some (array (c.kinds.map ItemKind.toJson))] := by
  simp [toJson, fields?, List.lookup_cons]

theorem isForm : IsForm toJson ofJson? fun _ => True := by
  refine isForm_record fields?_toJson ?_ fun _ _ _ => trivial
  intro c _
  dsimp only
  rw [ItemKind.isForm.list.required.read_write fun _ _ => trivial]
  rfl

end RuleConfig

/-! ## Reports -/

namespace ToolInfo

theorem fields?_toJson (t : ToolInfo) :
    fields? ["name", "version"] t.toJson = some [some (string t.name), t.version.map string] := by
  simp [toJson, fields?, lookup_optionalMember, List.lookup_cons]

theorem isForm : IsForm toJson ofJson? fun _ => True := by
  have hversion := isForm_string.optional nofun
  refine isForm_record fields?_toJson ?_ fun _ _ _ => trivial
  intro t _
  dsimp only
  rw [isForm_string.required.read_write trivial, hversion.read_write fun _ _ => trivial]
  rfl

end ToolInfo

namespace Failure

/-- A failure whose place, if there is one, has numbers of 64 bits. -/
structure Storable (f : Failure) : Prop where
  line : ∀ n ∈ f.line, n < wordLimit
  column : ∀ n ∈ f.column, n < wordLimit

theorem fields?_toJson (f : Failure) :
    fields? ["project", "path", "kind", "message", "line", "column"] f.toJson =
      some [some (string f.project), some (string f.path), some f.kind.toJson,
        some (string f.message), f.line.map nat, f.column.map nat] := by
  simp [toJson, fields?, List.lookup_append, lookup_optionalMember, List.lookup_cons]

theorem isForm : IsForm toJson ofJson? Storable := by
  have hword := isForm_nat.optional nofun
  refine isForm_record fields?_toJson ?_ ?_
  · intro f h
    dsimp only
    rw [FailureKind.isForm.required.read_write trivial, hword.read_write h.line,
      hword.read_write h.column]
    rfl
  · intro fs f h
    split at h
    · simp only [↓Option.bind_eq_bind, ↓Option.bind_eq_some_iff, Option.pure_def,
        Option.some.injEq] at h
      obtain ⟨_, -, _, -, _, -, _, -, line, hline, column, hcolumn, rfl⟩ := h
      exact ⟨hword.of_read hline, hword.of_read hcolumn⟩
    · cases h

end Failure

namespace DocumentChange

/-- The number of edits of a change has 64 bits. -/
def Storable (c : DocumentChange) : Prop := c.edits < wordLimit

theorem fields?_toJson (c : DocumentChange) :
    fields? ["path", "edits", "sha256_before", "sha256_after"] c.toJson =
      some [some (string c.path), some (nat c.edits), some (string c.sha256Before),
        some (string c.sha256After)] := by
  simp [toJson, fields?, List.lookup_cons]

theorem isForm : IsForm toJson ofJson? Storable := by
  have hword := isForm_nat.required
  refine isForm_record fields?_toJson ?_ ?_
  · intro c h
    dsimp only
    rw [hword.read_write h]
    rfl
  · intro fs c h
    split at h
    · simp only [↓Option.bind_eq_bind, ↓Option.bind_eq_some_iff, Option.pure_def,
        Option.some.injEq] at h
      obtain ⟨_, -, edits, hedits, _, -, _, -, rfl⟩ := h
      exact hword.of_read hedits
    · cases h

end DocumentChange

namespace ProjectReport

/-- The counts of a project have 64 bits, and so have those of its changes. -/
structure Storable (p : ProjectReport) : Prop where
  documentsScanned : p.documentsScanned < wordLimit
  findings : p.findings < wordLimit
  editsAccepted : p.editsAccepted < wordLimit
  changes : ∀ c ∈ p.changes, c.Storable

theorem fields?_toJson (p : ProjectReport) :
    fields? ["name", "documents_scanned", "findings", "edits_accepted", "changes"] p.toJson =
      some [some (string p.name), some (nat p.documentsScanned), some (nat p.findings),
        some (nat p.editsAccepted), if p.changes.isEmpty then none
          else some (array (p.changes.map DocumentChange.toJson))] := by
  cases h : p.changes.isEmpty <;> simp [toJson, fields?, List.lookup_cons, h]

theorem isForm : IsForm toJson ofJson? Storable := by
  have hword := isForm_nat.required
  have hchanges := DocumentChange.isForm.skipping
  refine isForm_record fields?_toJson ?_ ?_
  · intro p h
    dsimp only
    rw [isForm_string.required.read_write trivial, hword.read_write h.documentsScanned,
      hword.read_write h.findings, hword.read_write h.editsAccepted, hchanges.read_write h.changes]
    rfl
  · intro fs p h
    split at h
    · simp only [↓Option.bind_eq_bind, ↓Option.bind_eq_some_iff, Option.pure_def,
        Option.some.injEq] at h
      obtain ⟨_, -, _, hdocuments, _, hfindings, _, hedits, _, hlist, rfl⟩ := h
      exact ⟨hword.of_read hdocuments, hword.of_read hfindings, hword.of_read hedits,
        hchanges.of_read hlist⟩
    · cases h

end ProjectReport

namespace Summary

/-- The totals have 64 bits. -/
structure Storable (s : Summary) : Prop where
  projects : s.projects < wordLimit
  documentsScanned : s.documentsScanned < wordLimit
  findings : s.findings < wordLimit
  editsAccepted : s.editsAccepted < wordLimit
  editsApplied : s.editsApplied < wordLimit
  documentsChanged : s.documentsChanged < wordLimit
  failures : s.failures < wordLimit

theorem fields?_toJson (s : Summary) :
    fields? ["projects", "documents_scanned", "findings", "edits_accepted", "edits_applied",
        "documents_changed", "failures"] s.toJson =
      some [some (nat s.projects), some (nat s.documentsScanned), some (nat s.findings),
        some (nat s.editsAccepted), some (nat s.editsApplied), some (nat s.documentsChanged),
        some (nat s.failures)] := by
  simp [toJson, fields?, List.lookup_cons]

theorem isForm : IsForm toJson ofJson? Storable := by
  have hword := isForm_nat.required
  refine isForm_record fields?_toJson ?_ ?_
  · intro s h
    dsimp only
    rw [hword.read_write h.projects, hword.read_write h.documentsScanned,
      hword.read_write h.findings, hword.read_write h.editsAccepted,
      hword.read_write h.editsApplied, hword.read_write h.documentsChanged,
      hword.read_write h.failures]
    rfl
  · intro fs s h
    split at h
    · simp only [↓Option.bind_eq_bind, ↓Option.bind_eq_some_iff, Option.pure_def,
        Option.some.injEq] at h
      obtain ⟨_, hprojects, _, hdocuments, _, hfindings, _, haccepted, _, happlied, _, hchanged,
        _, hfailures, rfl⟩ := h
      exact ⟨hword.of_read hprojects, hword.of_read hdocuments, hword.of_read hfindings,
        hword.of_read haccepted, hword.of_read happlied, hword.of_read hchanged,
        hword.of_read hfailures⟩
    · cases h

end Summary

namespace Report

/-- A report whose times have texts of their own and whose counts have 64 bits. -/
structure Storable (r : Report) : Prop where
  startedAt : ∀ t ∈ r.stamp.startedAt, t.IsValid
  endedAt : ∀ t ∈ r.stamp.endedAt, t.IsValid
  projects : ∀ p ∈ r.projects, p.Storable
  failures : ∀ f ∈ r.failures, f.Storable
  summary : r.summary.Storable

theorem fields?_toJson (r : Report) :
    fields? fieldNames r.toJson =
      some [some (string r.schema), some (string r.stamp.runId), some r.tool.toJson,
        some r.rule.toJson, some r.fix.toJson, r.stamp.startedAt.map Timestamp.toJson,
        r.stamp.endedAt.map Timestamp.toJson, some (bool r.cancelled),
        some (array (r.projects.map ProjectReport.toJson)),
        some (array (r.failures.map Failure.toJson)), some r.summary.toJson] := by
  simp [toJson, fieldNames, fields?, List.lookup_append, lookup_optionalMember, List.lookup_cons]

theorem isForm : IsForm toJson ofJson? Storable := by
  have htime := Timestamp.isForm.optional nofun
  have hcancelled := isForm_bool.defaulting false trivial
  have hprojects := ProjectReport.isForm.list.defaulting [] (by simp)
  have hfailures := Failure.isForm.list.defaulting [] (by simp)
  refine isForm_record fields?_toJson ?_ ?_
  · intro r h
    dsimp only
    rw [ToolInfo.isForm.required.read_write trivial, RuleId.isForm.required.read_write trivial,
      FixId.isForm.required.read_write trivial, htime.read_write h.startedAt,
      htime.read_write h.endedAt, hcancelled.read_write trivial, hprojects.read_write h.projects,
      hfailures.read_write h.failures, Summary.isForm.required.read_write h.summary]
    rfl
  · intro fs r h
    split at h
    · simp only [↓Option.bind_eq_bind, ↓Option.bind_eq_some_iff, Option.pure_def,
        Option.some.injEq] at h
      obtain ⟨_, -, _, -, _, hstarted, _, hended, _, -, _, -, _, -, _, -, _, hprojs, _, hfails,
        _, hsummary, rfl⟩ := h
      exact ⟨htime.of_read hstarted, htime.of_read hended, hprojects.of_read hprojs,
        hfailures.of_read hfails, Summary.isForm.required.of_read hsummary⟩
    · cases h

end Report

/-- Findings, edits, failures, configurations and reports are read back from their JSON, and
whatever JSON they were read from, they are read again from their own. -/
theorem json_round_trip :
    RoundTrips Finding.toJson Finding.ofJson? Finding.Storable ∧
    RoundTrips Edit.toJson Edit.ofJson? Edit.Storable ∧
    RoundTrips Failure.toJson Failure.ofJson? Failure.Storable ∧
    RoundTrips RuleConfig.toJson RuleConfig.ofJson? (fun _ => True) ∧
    RoundTrips Report.toJson Report.ofJson? Report.Storable :=
  ⟨Finding.isForm.roundTrips, Edit.isForm.roundTrips, Failure.isForm.roundTrips,
    RuleConfig.isForm.roundTrips, Report.isForm.roundTrips⟩

/-- A report of a run that started in a leap second and has not ended, with a count at the limit. -/
def leapReport : Report where
  schema := Report.schemaName
  stamp := { runId := "run", startedAt := some ⟨1483228799, 1500000000⟩ }
  tool := { name := "visfix" }
  rule := .missingVisibility
  fix := .makePubCrate
  projects := [⟨"app", 0xFFFFFFFFFFFFFFFF, 0, 0, []⟩]

/-- A report is read back, and so is a failure that was read from an array of all fields but one. -/
theorem json_round_trip_leap_second :
    leapReport.Storable ∧ Report.ofJson? leapReport.toJson = some leapReport ∧
    Failure.ofJson? (array [string "app", string "a.rs", object [("syntax_broken", null)],
      string "broken", nat 3]) = some ⟨"app", "a.rs", .syntaxBroken, "broken", some 3, none⟩ ∧
    Failure.ofJson? (Failure.toJson ⟨"app", "a.rs", .syntaxBroken, "broken", some 3, none⟩) =
      some ⟨"app", "a.rs", .syntaxBroken, "broken", some 3, none⟩ := by
  obtain ⟨-, -, hfailure, -, hreport⟩ := json_round_trip
  have hstorable : leapReport.Storable := by
    refine ⟨?_, nofun, ?_, nofun, ?_⟩
    · rintro t ⟨⟩
      exact ⟨by decide, by decide, by decide⟩
    · intro p hp
      obtain rfl := List.mem_singleton.1 hp
      exact ⟨by decide, by decide, by decide, nofun⟩
    · exact ⟨by decide, by decide, by decide, by decide, by decide, by decide, by decide⟩
  have hread : Failure.ofJson? (array [string "app", string "a.rs",
      object [("syntax_broken", null)], string "broken", nat 3]) =
      some ⟨"app", "a.rs", .syntaxBroken, "broken", some 3, none⟩ := by decide
  exact ⟨hstorable, hreport.1 leapReport hstorable, hread, hfailure.2 _ _ hread⟩

end PubSweep
