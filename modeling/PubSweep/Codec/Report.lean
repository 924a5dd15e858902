import PubSweep.Codec.Finding
import PubSweep.Report

/-!
Reports as JSON.
-/

namespace PubSweep

open Json

namespace Timestamp

/-- A moment as JSON. -/
def toJson (t : Timestamp) : Json := string t.render

/-- Reads a moment. -/
def ofJson? (j : Json) : Option Timestamp := (asString? j).bind parse?

end Timestamp

namespace ToolInfo

/-- A tool as JSON. -/
def toJson (t : ToolInfo) : Json :=
  object ([("name", string t.name)] ++ optionalMember "version" string t.version)

/-- Reads a tool. -/
def ofJson? (j : Json) : Option ToolInfo := do
  let [name, version] ← fields? ["name", "version"] j | none
  return ⟨← required asString? name, ← optional asString? version⟩

end ToolInfo

namespace FailureKind

/-- A kind of failure as JSON. -/
def toJson (k : FailureKind) : Json := string k.name

/-- Reads a kind of failure. -/
def ofJson? : Json → Option FailureKind := asNamed? all name

end FailureKind

namespace Failure

/-- A failure as JSON. -/
def toJson (f : Failure) : Json :=
  object <|
    [("project", string f.project), ("path", string f.path), ("kind", f.kind.toJson),
      ("message", string f.message)] ++
    optionalMember "line" nat f.line ++ optionalMember "column" nat f.column

/-- Reads a failure. -/
def ofJson? (j : Json) : Option Failure := do
  let [project, path, kind, message, line, column] ←
    fields? ["project", "path", "kind", "message", "line", "column"] j | none
  return {
    project := ← required asString? project
    path := ← required asString? path
    kind := ← required FailureKind.ofJson? kind
    message := ← required asString? message
    line := ← optional asWord? line
    column := ← optional asWord? column }

end Failure

namespace DocumentChange

/-- A change as JSON. -/
def toJson (c : DocumentChange) : Json :=
  object
    [("path", string c.path), ("edits", nat c.edits), ("sha256_before", string c.sha256Before),
      ("sha256_after", string c.sha256After)]

/-- Reads a change. -/
def ofJson? (j : Json) : Option DocumentChange := do
  let [path, edits, before, after] ←
    fields? ["path", "edits", "sha256_before", "sha256_after"] j | none
  return ⟨← required asString? path, ← required asWord? edits, ← required asString? before,
    ← required asString? after⟩

end DocumentChange

namespace ProjectReport

/-- The report on a project as JSON; an empty list of changes is left out. -/
def toJson (p : ProjectReport) : Json :=
  object <|
    [("name", string p.name), ("documents_scanned", nat p.documentsScanned),
      ("findings", nat p.findings), ("edits_accepted", nat p.editsAccepted)] ++
    if p.changes.isEmpty then [] else [("changes", array (p.changes.map DocumentChange.toJson))]

/-- Reads the report on a project. -/
def ofJson? (j : Json) : Option ProjectReport := do
  let [name, documents, findings, edits, changes] ←
    fields? ["name", "documents_scanned", "findings", "edits_accepted", "changes"] j | none
  return {
    name := ← required asString? name
    documentsScanned := ← required asWord? documents
    findings := ← required asWord? findings
    editsAccepted := ← required asWord? edits
    changes := ← defaulting (asList? DocumentChange.ofJson?) [] changes }

end ProjectReport

namespace Summary

/-- Totals as JSON. -/
def toJson (s : Summary) : Json :=
  object
    [("projects", nat s.projects), ("documents_scanned", nat s.documentsScanned),
      ("findings", nat s.findings), ("edits_accepted", nat s.editsAccepted),
      ("edits_applied", nat s.editsApplied), ("documents_changed", nat s.documentsChanged),
      ("failures", nat s.failures)]

/-- Reads totals. -/
def ofJson? (j : Json) : Option Summary := do
  let [projects, documents, findings, accepted, applied, changed, failures] ←
    fields? ["projects", "documents_scanned", "findings", "edits_accepted", "edits_applied",
      "documents_changed", "failures"] j | none
  return ⟨← required asWord? projects, ← required asWord? documents, ← required asWord? findings,
    ← required asWord? accepted, ← required asWord? applied, ← required asWord? changed,
    ← required asWord? failures⟩

end Summary

namespace Report

/-- The names of the fields of a report. -/
def fieldNames : List String :=
  ["schema", "run_id", "tool", "rule", "fix", "started_at", "ended_at", "cancelled", "projects",
    "failures", "summary"]

/-- A report as JSON. -/
def toJson (r : Report) : Json :=
  object <|
    [("schema", string r.schema), ("run_id", string r.stamp.runId), ("tool", r.tool.toJson),
      ("rule", r.rule.toJson), ("fix", r.fix.toJson)] ++
    optionalMember "started_at" Timestamp.toJson r.stamp.startedAt ++
    optionalMember "ended_at" Timestamp.toJson r.stamp.endedAt ++
    [("cancelled", bool r.cancelled), ("projects", array (r.projects.map ProjectReport.toJson)),
      ("failures", array (r.failures.map Failure.toJson)), ("summary", r.summary.toJson)]

/-- Reads a report. -/
def ofJson? (j : Json) : Option Report := do
  let [schema, runId, tool, rule, fix, startedAt, endedAt, cancelled, projects, failures,
    summary] ← fields? fieldNames j | none
  return {
    schema := ← required asString? schema
    stamp := {
      runId := ← required asString? runId
      startedAt := ← optional Timestamp.ofJson? startedAt
      endedAt := ← optional Timestamp.ofJson? endedAt }
    tool := ← required ToolInfo.ofJson? tool
    rule := ← required RuleId.ofJson? rule
    fix := ← required FixId.ofJson? fix
    cancelled := ← defaulting asBool? false cancelled
    projects := ← defaulting (asList? ProjectReport.ofJson?) [] projects
    failures := ← defaulting (asList? Failure.ofJson?) [] failures
    summary := ← required Summary.ofJson? summary }

end Report

end PubSweep
