import PubSweep.Command.Arguments
import PubSweep.Command.Listing
import PubSweep.Config
import PubSweep.Files.Discovery
import PubSweep.Files.Write
import PubSweep.Run

/-!
The commands as functions of a file system: what they print, the code they end with, and the files
they leave behind.
-/

namespace PubSweep.Command

open Files Syntax

/-- How a command ended. -/
structure Ending where
  exitCode : Nat
  stdout : String := ""
  stderr : String := ""
  files : FileSystem
deriving Inhabited

/-- All went well, and nothing was found. -/
def exitOk : Nat := 0

/-- The command could not be carried out. -/
def exitError : Nat := 1

/-- Something was found, or some documents failed; also wrong arguments. -/
def exitFindings : Nat := 2

/-- The command was cancelled. -/
def exitCancelled : Nat := 130

/-- What all commands run with. -/
structure Environment where
  parser : Parser
  stamp : Stamp
  interrupt : Interrupt := Interrupt.never

/-- What a run of a command works on. -/
structure Plan where
  settings : Settings
  exclude : List String
  /-- Where the report and the patch go. -/
  outDir : Path
  apply : Bool
deriving Repr, DecidableEq, Inhabited

/-- The configuration in a directory; one that is not there says nothing. -/
def loadConfig (fs : FileSystem) (root : Path) : Except String Config :=
  let path := root.join ⟨Config.fileName⟩
  match fs.read? path with
  | none => .ok {}
  | some contents =>
    match decode? contents with
    | none => .error ("read config file " ++ path.text)
    | some text =>
      match Config.parse? text with
      | none => .error ("parse config file " ++ path.text ++ ": " ++ Config.parseMessage)
      | some config => .ok config

/-- The directory to work on: the current one, unless another is given. -/
def Given.rootPath (given : Given) : Path := ⟨given.root.getD "."⟩

/-- Where the report and the patch go: below the root, unless a directory is given. -/
def Given.outPath (given : Given) : Path :=
  match given.outDir with
  | some dir => ⟨dir⟩
  | none => (given.rootPath.join ⟨"target"⟩).join ⟨toolName⟩

/-- The plan of a command: its options, over the configuration of the root. -/
def planOf (fs : FileSystem) (given : Given) : Except String Plan :=
  match loadConfig fs given.rootPath with
  | .error e => .error e
  | .ok config =>
    let merged := MergedConfig.merge config ⟨given.fix, given.kinds, given.exclude⟩
    .ok
      { settings := { root := given.rootPath, fix := merged.fix, kinds := merged.kinds }
        exclude := merged.exclude
        outDir := given.outPath
        apply := given.apply }

/-- The tool as it is named in reports. -/
def toolInfo : ToolInfo := ⟨toolName, some toolVersion⟩

/-- The projects of a plan. -/
def Plan.load (env : Environment) (plan : Plan) (fs : FileSystem) :
    Except String (List Project) :=
  (loadProjects env.parser fs plan.settings.root plan.exclude).mapError LoadError.message

/-- A failure on a line of its own. -/
def failureLine (f : Failure) : String :=
  let location :=
    match f.line, f.column with
    | some line, some column => toString line ++ ":" ++ toString column
    | some line, none => toString line
    | none, _ => "-"
  f.project ++ " " ++ f.path ++ ":" ++ location ++ ": " ++ f.kind.name ++ ": " ++ f.message ++ "\n"

/-- Failures one per line. -/
def failureLines (failures : List Failure) : String := String.join (failures.map failureLine)

/-- The end of a command that could not be carried out. -/
def failed (fs : FileSystem) (message stdout : String) : Ending where
  exitCode := exitError
  stdout := stdout
  stderr := message ++ "\n"
  files := fs

/-- The end of a command whose run has no outcome. -/
def refused (fs : FileSystem) : RunError → Ending
  | .cancelled => { exitCode := exitCancelled, files := fs }
  | .internal message => failed fs message ""

/-- Writes the report and the patch, and goes on with the files behind that. -/
def withArtifacts (plan : Plan) (fs : FileSystem) (outcome : Outcome) (stdout : String)
    (next : FileSystem → Ending) : Ending :=
  let written := perform attempt (outcome.artifactCalls plan.outDir) fs
  match written.error with
  | some (_, e) =>
    failed written.state ("write artifacts to " ++ plan.outDir.text ++ ": " ++ e.message) stdout
  | none =>
    if outcome.report.cancelled then
      { exitCode := exitCancelled
        stdout
        stderr := failureLines outcome.report.failures
        files := written.state }
    else next written.state

/-- Reports what is found. -/
def check (env : Environment) (fs : FileSystem) (plan : Plan) : Ending :=
  match runSource env.parser plan.settings toolInfo .check env.stamp env.interrupt
      (plan.load env fs) with
  | .error e => refused fs e
  | .ok outcome =>
    let stdout := Finding.renderAll outcome.findings
    withArtifacts plan fs outcome stdout fun fs =>
      { exitCode :=
          if outcome.hasFindings || outcome.report.hasFailures then exitFindings else exitOk
        stdout
        stderr := failureLines outcome.report.failures
        files := fs }

/-- What is said of a fix that is not applied. -/
def previewText (plan : Plan) (summary : Summary) : String :=
  toolName ++ ": " ++ toString summary.editsApplied ++ " edit(s) in " ++
    toString summary.documentsChanged ++ " file(s) ready (" ++ plan.settings.fix.name ++
    "); patch at " ++ (plan.outDir.join ⟨"patch.diff"⟩).text ++ "\n" ++
    if 0 < summary.editsApplied then "Re-run with --apply to write the changes.\n" else ""

/-- What is said of a fix that is applied. -/
def appliedText (plan : Plan) (summary : Summary) (written : Nat) : String :=
  toolName ++ ": applied " ++ toString summary.editsApplied ++ " edit(s) to " ++ toString written ++
    " file(s) (" ++ plan.settings.fix.name ++ ")\n"

/-- The end of a fix that ran. -/
def fixed (outcome : Outcome) (stdout : String) (fs : FileSystem) : Ending where
  exitCode := if outcome.report.hasFailures then exitFindings else exitOk
  stdout := stdout
  stderr := failureLines outcome.report.failures
  files := fs

/-- Puts right what is found; the documents are written only if that is asked for. -/
def fix (env : Environment) (fs : FileSystem) (plan : Plan) : Ending :=
  if env.interrupt .command then { exitCode := exitCancelled, files := fs }
  else
    match plan.load env fs with
    | .error e => failed fs ("load projects: " ++ e) ""
    | .ok before =>
      match runSource env.parser plan.settings toolInfo .fix env.stamp env.interrupt
          (.ok (sortByRoot before)) with
      | .error e => refused fs e
      | .ok outcome =>
        withArtifacts plan fs outcome "" fun fs =>
          if plan.apply then
            let written := perform attempt (outcome.documentCalls before) fs
            match written.error with
            | some (call, e) => failed written.state (documentContext call ++ ": " ++ e.message) ""
            | none =>
              fixed outcome (appliedText plan outcome.report.summary written.done) written.state
          else fixed outcome (previewText plan outcome.report.summary) fs

/-- Runs a command. -/
def run (env : Environment) (fs : FileSystem) (verb : Verb) (given : Given) : Ending :=
  match verb with
  | .listFixes =>
    { exitCode := exitOk
      stdout :=
        match given.format.getD .text with
        | .text => listText
        | .json => listJson
      files := fs }
  | .check =>
    match planOf fs given with
    | .error e => failed fs ("load visfix.toml config: " ++ e) ""
    | .ok plan => check env fs plan
  | .fix =>
    match planOf fs given with
    | .error e => failed fs ("load visfix.toml config: " ++ e) ""
    | .ok plan => fix env fs plan

/-- The end of a run that the arguments stop. -/
def stopped (fs : FileSystem) : Stop → Ending
  | .help topic => { exitCode := exitOk, stdout := topic.text, files := fs }
  | .version => { exitCode := exitOk, stdout := versionText, files := fs }
  | .noCommand => { exitCode := exitFindings, stderr := Topic.tool.text, files := fs }
  | .usage e => { exitCode := exitFindings, stderr := "error: " ++ e.message ++ "\n", files := fs }

/-- Runs the tool with the arguments of a command line. -/
def execute (env : Environment) (fs : FileSystem) (arguments : List String) : Ending :=
  match readArguments arguments with
  | .error stop => stopped fs stop
  | .ok (verb, given) => run env fs verb given

end PubSweep.Command
