import PubSweep.Codec.Report
import PubSweep.Json.Print
import PubSweep.Pass
import PubSweep.Report.Markdown

/-!
What is written after a pass: the changed documents, and the report with its patch.

The calls are made one after the other, up to the first that fails.
-/

namespace PubSweep

/-- A call that changes files. -/
inductive WriteCall where
  | makeDirectory (path : Path)
  | writeFile (path : Path) (contents : String)
deriving Repr, DecidableEq, Inhabited

/-- The path of a call. -/
def WriteCall.path : WriteCall → Path
  | .makeDirectory path => path
  | .writeFile path _ => path

/-- What came of some calls: the state behind the last one made, how many went well, and the failure
of the next. -/
structure WriteResult (σ ε : Type) where
  state : σ
  done : Nat
  error : Option (WriteCall × ε)

/-- Makes calls one after the other, up to the first that fails. -/
def perform {σ ε : Type} (attempt : σ → WriteCall → σ × Option ε) :
    List WriteCall → σ → WriteResult σ ε
  | [], s => ⟨s, 0, none⟩
  | call :: calls, s =>
    match attempt s call with
    | (s, some e) => ⟨s, 0, some (call, e)⟩
    | (s, none) =>
      let r := perform attempt calls s
      { r with done := r.done + 1 }

namespace Outcome

/-- The calls that write the documents whose text is another one; none after a cancelled pass. -/
def documentCalls (before : List Project) (o : Outcome) : List WriteCall :=
  if o.report.cancelled then []
  else
    (Pass.pairs before o.projects).filterMap fun (_, a, db, da) =>
      if db.isShared da || db.text = da.text then none
      else some (.writeFile (a.root.join da.path) da.text)

/-- The calls that write the report and the patch into a directory. -/
def artifactCalls (directory : Path) (o : Outcome) : List WriteCall :=
  [.makeDirectory directory,
    .writeFile (directory.join ⟨"report.json"⟩) o.report.toJson.pretty,
    .writeFile (directory.join ⟨"report.md"⟩) o.report.toMarkdown,
    .writeFile (directory.join ⟨"patch.diff"⟩) o.patch]

end Outcome

/-- The words for a document that could not be written. -/
def documentContext (call : WriteCall) : String := "write edited document " ++ call.path.text

/-- A writer that keeps a list of its calls and refuses some paths. -/
def recordCall (refuses : Path → Bool) (log : List WriteCall) (call : WriteCall) :
    List WriteCall × Option String :=
  if refuses call.path then (log, some ("refused " ++ call.path.text)) else (log ++ [call], none)

end PubSweep
