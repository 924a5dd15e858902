import PubSweep.Command.Flag

/-!
Reads the arguments of the command line.

An option whose value is an argument of its own is taken in when the next option starts, or at the
end; so an argument that fits nowhere is told first.
-/

namespace PubSweep.Command

/-- What is wrong with the arguments. -/
inductive UsageError where
  | unexpectedArgument (argument : String)
  | unrecognizedCommand (name : String)
  /-- An option has no value. -/
  | valueRequired (flag : Flag)
  /-- An option is given again. -/
  | repeated (flag : Flag)
  /-- An option that has no value is given one. -/
  | unexpectedValue (value label : String)
  | invalidValue (flag : Flag) (value : String) (cause : Option String)
deriving Repr, DecidableEq

/-- The words for an error. -/
def UsageError.message : UsageError → String
  | .unexpectedArgument a => "unexpected argument '" ++ a ++ "' found"
  | .unrecognizedCommand name => "unrecognized subcommand '" ++ name ++ "'"
  | .valueRequired flag => "a value is required for '" ++ flag.label ++ "' but none was supplied"
  | .repeated flag => "the argument '" ++ flag.label ++ "' cannot be used multiple times"
  | .unexpectedValue value label =>
    "unexpected value '" ++ value ++ "' for '" ++ label ++ "' found; no more were expected"
  | .invalidValue flag value cause =>
    "invalid value '" ++ value ++ "' for '" ++ flag.label ++ "'" ++
      match cause with
      | some c => ": " ++ c
      | none => ""

/-- What ends the reading of arguments. -/
inductive Stop where
  | help (topic : Topic)
  | version
  /-- No command is given. -/
  | noCommand
  | usage (error : UsageError)
deriving Repr, DecidableEq

/-- How fixes are listed. -/
inductive ListFormat where
  | text
  | json
deriving Repr, DecidableEq, Inhabited

/-- The format of a name. -/
def ListFormat.ofName? : String → Option ListFormat
  | "text" => some .text
  | "json" => some .json
  | _ => none

/-- The options that were given. -/
structure Given where
  root : Option String := none
  outDir : Option String := none
  kinds : List ItemKind := []
  exclude : List String := []
  fix : Option FixId := none
  apply : Bool := false
  format : Option ListFormat := none
deriving Repr, DecidableEq, Inhabited

namespace Given

/-- Reads the kinds of a list. -/
def readKinds : List String → Except UsageError (List ItemKind)
  | [] => .ok []
  | piece :: pieces =>
    match ItemKind.parse piece with
    | .error e => .error (.invalidValue .kind piece (some e.message))
    | .ok kind => (readKinds pieces).map (kind :: ·)

/-- Takes in an option with its value. -/
def withValue (g : Given) (flag : Flag) (value : String) : Except UsageError Given :=
  match flag with
  | .root => if g.root.isSome then .error (.repeated flag) else .ok { g with root := some value }
  | .outDir =>
    if g.outDir.isSome then .error (.repeated flag) else .ok { g with outDir := some value }
  | .kind => (readKinds (value.splitOn ",")).map fun kinds => { g with kinds := g.kinds ++ kinds }
  | .exclude => .ok { g with exclude := g.exclude ++ [value] }
  | .fix =>
    if g.fix.isSome then .error (.repeated flag)
    else
      match FixId.parse value with
      | .error e => .error (.invalidValue flag value (some e.message))
      | .ok fix => .ok { g with fix := some fix }
  | .format =>
    if g.format.isSome then .error (.repeated flag)
    else
      match ListFormat.ofName? value with
      | some format => .ok { g with format := some format }
      | none =>
        if value = "" then .error (.valueRequired flag)
        else .error (.invalidValue flag value none)
  | .apply => .error (.unexpectedValue value flag.label)

/-- Takes in an option that has no value. -/
def withoutValue (g : Given) (flag : Flag) : Except UsageError Given :=
  match flag with
  | .apply => if g.apply then .error (.repeated flag) else .ok { g with apply := true }
  | _ => .error (.valueRequired flag)

/-- Takes in an option. -/
def record (g : Given) (flag : Flag) : (value : Option String) → Except UsageError Given
  | some value => g.withValue flag value
  | none => g.withoutValue flag

end Given

/-- The form of an argument. -/
inductive Argument where
  /-- Two hyphens: behind them there are no options. -/
  | separator
  /-- Two hyphens and a name, perhaps with a value behind an equals sign. -/
  | long (name : String) (value : Option String)
  /-- A hyphen and letters. -/
  | short (letter : Char)
  | word (text : String)
deriving Repr, DecidableEq

/-- The form of an argument; of several letters the first counts. -/
def Argument.ofText (text : String) : Argument :=
  match text.toList with
  | ['-', '-'] => .separator
  | '-' :: '-' :: rest =>
    let name := String.ofList (rest.takeWhile (· ≠ '='))
    match rest.dropWhile (· ≠ '=') with
    | [] => .long name none
    | _ :: value => .long name (some (String.ofList value))
  | '-' :: letter :: _ => .short letter
  | _ => .word text

/-- The options that were taken in, and the last one, which still waits. -/
structure Reading where
  given : Given := {}
  waiting : Option (Flag × Option String) := none
deriving Inhabited

/-- Takes in the option that waits. -/
def Reading.settle (r : Reading) : Except UsageError Given :=
  match r.waiting with
  | none => .ok r.given
  | some (flag, value) => r.given.record flag value

/-- Goes on with the options that are settled. -/
def Reading.continue {α : Type} (r : Reading) (next : Given → Except Stop α) : Except Stop α :=
  match r.settle with
  | .error e => .error (.usage e)
  | .ok g => next g

/-- Takes in an option at once, behind the one that waits. -/
def Reading.take (r : Reading) (flag : Flag) (value : Option String) : Except Stop Reading :=
  r.continue fun g =>
    match g.record flag value with
    | .error e => .error (.usage e)
    | .ok g => .ok { given := g }

/-- Takes in an argument with two hyphens in front. -/
def Reading.long (verb : Verb) (r : Reading) (name : String) (value : Option String) :
    Except Stop Reading :=
  match verb.flag? name, value with
  | some flag, some v =>
    if flag.placeholder.isNone then .error (.usage (.unexpectedValue v flag.label))
    else r.take flag (some v)
  | some flag, none =>
    if flag.placeholder.isNone then r.take flag none
    else r.continue fun g => .ok { given := g, waiting := some (flag, none) }
  | none, some v =>
    if name = helpName then .error (.usage (.unexpectedValue v ("--" ++ name)))
    else .error (.usage (.unexpectedArgument ("--" ++ name)))
  | none, none =>
    if name = helpName then r.continue fun _ => .error (.help (.verb verb))
    else .error (.usage (.unexpectedArgument ("--" ++ name)))

/-- Reads the arguments behind a command. -/
def readFlags (verb : Verb) : List String → Reading → Except Stop Given
  | [], r => r.continue .ok
  | argument :: rest, r =>
    match Argument.ofText argument with
    | .separator =>
      match rest with
      | [] => r.continue .ok
      | next :: _ => .error (.usage (.unexpectedArgument next))
    | .long name value =>
      match r.long verb name value with
      | .error stop => .error stop
      | .ok r => readFlags verb rest r
    | .short letter =>
      if letter = 'h' then r.continue fun _ => .error (.help (.verb verb))
      else .error (.usage (.unexpectedArgument ("-" ++ String.singleton letter)))
    | .word text =>
      match r.waiting with
      | some (flag, none) => readFlags verb rest { r with waiting := some (flag, some text) }
      | _ => .error (.usage (.unexpectedArgument text))

/-- What the names behind the command for help lead to. -/
def readTopics : List String → Stop
  | [] => .help .tool
  | name :: rest =>
    match Topic.ofName? name, rest with
    | none, _ => .usage (.unrecognizedCommand name)
    | some topic, [] => .help topic
    | some _, next :: _ => .usage (.unrecognizedCommand next)

/-- What an option in front of all commands leads to. -/
def readLeading (name : String) (value : Option String) : Stop :=
  if name = helpName || name = "version" then
    match value with
    | some v => .usage (.unexpectedValue v ("--" ++ name))
    | none => if name = helpName then .help .tool else .version
  else .usage (.unexpectedArgument ("--" ++ name))

/-- Reads the arguments of the command line. -/
def readArguments : List String → Except Stop (Verb × Given)
  | [] => .error .noCommand
  | argument :: rest =>
    match Argument.ofText argument with
    | .separator =>
      match rest with
      | [] => .error .noCommand
      | next :: _ =>
        if (Topic.ofName? next).isSome then .error (.usage (.unexpectedArgument next))
        else .error (.usage (.unrecognizedCommand next))
    | .long name value => .error (readLeading name value)
    | .short letter =>
      if letter = 'h' then .error (.help .tool)
      else if letter = 'V' then .error .version
      else .error (.usage (.unexpectedArgument ("-" ++ String.singleton letter)))
    | .word text =>
      match Topic.ofName? text with
      | some .help => .error (readTopics rest)
      | some (.verb verb) => (readFlags verb rest {}).map fun given => (verb, given)
      | _ => .error (.usage (.unrecognizedCommand text))

end PubSweep.Command
