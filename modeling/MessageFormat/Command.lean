import MessageFormat.Diagnostic
import MessageFormat.Message
import MessageFormat.Wire.Text

/-! The command `icuc`: it reads a message from its input and writes the source text of its function, the
type of its arguments, or its elements. What it writes and how it ends is a function of its arguments, of the
variable `ICUC_LOCALE` of the environment and of its input. The variable `RUST_LOG`, which can switch on a log
on the error output, is taken to be unset: the lines of that log are no part of the outcome. -/

namespace MessageFormat.Command

/-- What is to be written. -/
inductive Mode where
  | script
  | types
  | elements
  deriving DecidableEq, Repr

/-- What the arguments ask for. -/
structure Config where
  mode : Mode
  locale : String
  pretty : Bool
  /-- The input is the JSON text of a message, and not a pattern. -/
  fromElements : Bool
  deriving DecidableEq, Repr

/-- Why the arguments are refused. -/
inductive Refusal where
  | help
  | localeExpected
  | unknown (argument : String)
  deriving DecidableEq, Repr

/-- What a run of the command leaves behind. -/
structure Outcome where
  code : Nat
  stdout : String
  stderr : String
  deriving DecidableEq, Repr

/-- How the command is called. -/
def usage : String :=
  "usage: icuc [--types | --ast [--pretty]] [--locale TAG] [--from-ast] < message"

/-- The locale that is used if no other one is given. -/
def defaultLocale : String := "en"

/-- What the command does without arguments, where a variable of the environment may set the locale. -/
def Config.initial (localeVariable : Option String) : Config :=
  ⟨.script, localeVariable.getD defaultLocale, false, false⟩

/-- Reads the arguments from left to right; of two that contradict each other the later one counts. -/
def Config.read (config : Config) : List String → Except Refusal Config
  | [] => .ok config
  | "--types" :: args => read { config with mode := .types } args
  | "--ast" :: args => read { config with mode := .elements } args
  | "--pretty" :: args => read { config with pretty := true } args
  | "--from-ast" :: args => read { config with fromElements := true } args
  | ["--locale"] => .error .localeExpected
  | "--locale" :: locale :: args => read { config with locale := locale } args
  | "-h" :: _ => .error .help
  | "--help" :: _ => .error .help
  | arg :: _ => .error (.unknown arg)

/-- The end of a run whose arguments are refused. -/
def Refusal.outcome (refusal : Refusal) : Outcome :=
  let reason := match refusal with
    | .help => ""
    | .localeExpected => "--locale needs a value\n"
    | .unknown arg => "unknown argument '" ++ arg ++ "'\n"
  ⟨2, "", reason ++ usage ++ "\n"⟩

/-- The end of a run that fails. -/
def failure (text : String) : Outcome := ⟨1, "", text⟩

/-- The end of a run that succeeds. -/
def success (line : String) : Outcome := ⟨0, line ++ "\n", ""⟩

/-- The dialect of the patterns that are read. Elements are shown as the strict dialect has them. -/
def Mode.dialect : Mode → Pattern.Dialect
  | .script | .types => .lenient
  | .elements => .strict

/-- Reads the message that the input is; if it is none, the text that says so. -/
def readMessage (config : Config) (input : String) : Except String (List Element) :=
  if config.fromElements then
    match Wire.read input with
    | .error e => .error (e.message input Wire.defaultRoot ++ "\n")
    | .ok es => .ok es
  else
    match Pattern.parse config.mode.dialect input with
    | .error e => .error (Diagnostic.report input e)
    | .ok es => .ok es

/-- Writes what is asked for of a message. -/
def writeMessage (config : Config) (es : List Element) : Outcome :=
  match config.mode with
  | .script =>
    match Message.compileElements es config.locale with
    | .error e => failure (e.display ++ "\n")
    | .ok source => success source
  | .types => success (Message.typeOfElements es)
  | .elements => success (Wire.render (if config.pretty then .pretty else .compact) es)

/-- The text for an input that is not well-formed UTF-8. -/
def unreadable : String := "failed to read stdin: stream did not contain valid UTF-8\n"

/-- What the command does with its input; there is none if it is not well-formed UTF-8. -/
def answer (config : Config) (input : Option String) : Outcome :=
  match input with
  | none => failure unreadable
  | some text =>
    match readMessage config text with
    | .error report => failure report
    | .ok es => writeMessage config es

/-- A run of the command. The input does not matter if the arguments are refused. -/
def run (args : List String) (localeVariable : Option String) (input : Option String) : Outcome :=
  match (Config.initial localeVariable).read args with
  | .error refusal => refusal.outcome
  | .ok config => answer config input

end MessageFormat.Command
