import PubSweep.Report
import PubSweep.Text.Bytes

/-!
Reports as Markdown.
-/

namespace PubSweep

/-- The first twelve bytes of a digest; all of it where they end inside a character or are not
there. -/
def shortDigest (digest : String) : String :=
  match Text.cut? 12 digest.toList with
  | some (start, _) => String.ofList start
  | none => digest

/-- The path of a failure, with its line and column as far as they are known. -/
def Failure.location (f : Failure) : String :=
  match f.line, f.column with
  | some line, some column => f.path ++ ":" ++ toString line ++ ":" ++ toString column
  | some line, none => f.path ++ ":" ++ toString line
  | none, _ => f.path

namespace Report

/-- A text as code. -/
def codeSpan (text : String) : String := "`" ++ text ++ "`"

/-- The totals, one per line. -/
def renderSummary (s : Summary) : String :=
  "- Projects: " ++ toString s.projects ++ "\n- Documents scanned: " ++
    toString s.documentsScanned ++ "\n- Findings: " ++ toString s.findings ++
    "\n- Edits accepted: " ++ toString s.editsAccepted ++ "\n- Edits applied: " ++
    toString s.editsApplied ++ " in " ++ toString s.documentsChanged ++
    " document(s)\n- Failures: " ++ toString s.failures ++ "\n\n"

/-- The row of a project in the table. -/
def renderProject (p : ProjectReport) : String :=
  "| " ++ codeSpan p.name ++ " | " ++ toString p.documentsScanned ++ " | " ++
    toString p.findings ++ " | " ++ toString p.editsAccepted ++ " | " ++
    toString p.changes.length ++ " |\n"

/-- The line of a change. -/
def renderChange (project : String) (c : DocumentChange) : String :=
  "- " ++ codeSpan project ++ " " ++ codeSpan c.path ++ " (" ++ toString c.edits ++ " edit(s)) " ++
    shortDigest c.sha256Before ++ " → " ++ shortDigest c.sha256After ++ "\n"

/-- The line of a failure. -/
def renderFailure (f : Failure) : String :=
  "- " ++ codeSpan f.project ++ " " ++ codeSpan f.location ++ ": " ++ f.message ++ " (" ++
    f.kind.name ++ ")\n"

/-- The section on projects. -/
def renderProjects (projects : List ProjectReport) : String :=
  if projects.isEmpty then "_No projects._\n\n"
  else
    let changes := projects.flatMap fun p => p.changes.map (renderChange p.name)
    "| Project | Documents | Findings | Accepted | Changed |\n|---|---:|---:|---:|---:|\n" ++
      String.join (projects.map renderProject) ++ "\n" ++
      if changes.isEmpty then "" else "**Documents changed**\n\n" ++ String.join changes ++ "\n"

/-- The report as Markdown. -/
def toMarkdown (r : Report) : String :=
  "# visfix " ++ r.rule.code ++ " (" ++ r.fix.name ++ ")\n\n" ++
    (if r.cancelled then "> Pass cancelled. No documents were changed.\n\n" else "") ++
    renderSummary r.summary ++ "## Projects\n\n" ++ renderProjects r.projects ++
    "## Failures\n\n" ++
    if r.failures.isEmpty then "_No failures._\n" else String.join (r.failures.map renderFailure)

end Report

end PubSweep
