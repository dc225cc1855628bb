/-!
# Command-line tokens

The arguments of the command line, read one after another as settings with a value and flags
without. A setting is spelled `--name value`, `--name=value`, `-nvalue`, `-n value` or `-n=value`,
and flags of one letter may be bundled before another letter. Reading ends at the first argument
that cannot be read; what stands before it is read all the same.
-/

namespace BenchLedger.CommandLine

/-- A setting, which takes a value. -/
inductive Key
  | duration | label | port | baud | docs | record | replay
  deriving DecidableEq

/-- A flag, which takes none. -/
inductive Flag
  | noSave | verbose
  deriving DecidableEq

/-- What an argument asks for. -/
inductive Token
  | setting (key : Key) (value : String)
  | flag (f : Flag)
  | version
  | help
  deriving DecidableEq

/-- Why a command line is refused. -/
inductive UsageError
  | unknown (argument : String)
  | unexpected (argument : String)
  | missingValue (key : Key)
  | needlessValue (argument value : String)
  | repeated (name : String)
  | badValue (key : Key) (value : String)
  deriving DecidableEq

def Key.name : Key → String
  | .duration => "--duration"
  | .label => "--label"
  | .port => "--port"
  | .baud => "--baud"
  | .docs => "--docs-dir"
  | .record => "--json"
  | .replay => "--replay"

/-- What the help writes for a value. -/
def Key.valueName : Key → String
  | .duration => "DURATION"
  | .label => "LABEL"
  | .port => "PORT"
  | .baud => "BAUD"
  | .docs => "DOCS_DIR"
  | .record => "PATH"
  | .replay => "FILE"

/-- A setting with a place for its value. -/
def Key.shown (key : Key) : String := key.name ++ " <" ++ key.valueName ++ ">"

def Flag.name : Flag → String
  | .noSave => "--no-save"
  | .verbose => "--verbose"

/-- What is wrong with a command line, without advice on its use. -/
def UsageError.message : UsageError → String
  | unknown argument | unexpected argument => "unexpected argument '" ++ argument ++ "' found"
  | missingValue key => "a value is required for '" ++ key.shown ++ "' but none was supplied"
  | needlessValue argument value =>
    "unexpected value '" ++ value ++ "' for '" ++ argument ++ "' found; no more were expected"
  | repeated name => "the argument '" ++ name ++ "' cannot be used multiple times"
  | badValue key value => "invalid value '" ++ value ++ "' for '" ++ key.shown ++ "'"

/-- What the name of an option stands for. -/
inductive Switch
  | setting (key : Key)
  | complete (token : Token)

/-- The option with a long name. -/
def Switch.ofLong? (name : List Char) : Option Switch :=
  match String.ofList name with
  | "duration" => some (.setting .duration)
  | "label" => some (.setting .label)
  | "port" => some (.setting .port)
  | "baud" => some (.setting .baud)
  | "docs-dir" => some (.setting .docs)
  | "json" => some (.setting .record)
  | "replay" => some (.setting .replay)
  | "no-save" => some (.complete (.flag .noSave))
  | "verbose" => some (.complete (.flag .verbose))
  | "version" => some (.complete .version)
  | "help" => some (.complete .help)
  | _ => none

/-- The option with a name of one letter. -/
def Switch.ofShort? : Char → Option Switch
  | 'd' => some (.setting .duration)
  | 'l' => some (.setting .label)
  | 'p' => some (.setting .port)
  | 'v' => some (.complete (.flag .verbose))
  | 'V' => some (.complete .version)
  | 'h' => some (.complete .help)
  | _ => none

/-- How the reading of one argument ends. -/
inductive Remainder
  | nothing
  | valueOf (key : Key)
  | refused (e : UsageError)

/-- Reads the letters after a single dash. -/
def readShort : List Char → List Token × Remainder
  | [] => ([], .nothing)
  | c :: rest =>
    match Switch.ofShort? c with
    | none => ([], .refused (.unknown (String.ofList ['-', c])))
    | some (.complete token) =>
      let (tokens, remainder) := readShort rest
      (token :: tokens, remainder)
    | some (.setting key) =>
      match rest with
      | [] => ([], .valueOf key)
      | '=' :: value => ([.setting key (String.ofList value)], .nothing)
      | value => ([.setting key (String.ofList value)], .nothing)

/-- Reads what follows two dashes. -/
def readLong (cs : List Char) : List Token × Remainder :=
  let name := cs.takeWhile (· ≠ '=')
  let argument := "--" ++ String.ofList name
  match Switch.ofLong? name, cs.dropWhile (· ≠ '=') with
  | none, _ => ([], .refused (.unknown argument))
  | some (.setting key), [] => ([], .valueOf key)
  | some (.setting key), _ :: value => ([.setting key (String.ofList value)], .nothing)
  | some (.complete token), [] => ([token], .nothing)
  | some (.complete _), _ :: value =>
    ([], .refused (.needlessValue argument (String.ofList value)))

/-- Whether an argument starts like an option; a dash alone does not. -/
def isOption (argument : String) : Bool :=
  match argument.toList with
  | '-' :: _ :: _ => true
  | _ => false

/-- Reads an argument that is not the value of the setting before it. -/
def readArgument (argument : String) : List Token × Remainder :=
  match argument.toList with
  | '-' :: '-' :: cs => readLong cs
  | '-' :: c :: cs => readShort (c :: cs)
  | _ => ([], .refused (.unexpected argument))

/-- The tokens of a command line up to the first refusal, read on behind a setting that may still
await its value. After two dashes alone no option is read, and there is nothing else to give. -/
def scan (awaiting : Option Key) : List String → List (Except UsageError Token)
  | [] =>
    match awaiting with
    | none => []
    | some key => [.error (.missingValue key)]
  | argument :: rest =>
    match awaiting with
    | some key =>
      if isOption argument then [.error (.missingValue key)]
      else .ok (.setting key argument) :: scan none rest
    | none =>
      if argument = "--" then
        match rest with
        | [] => []
        | extra :: _ => [.error (.unexpected extra)]
      else match readArgument argument with
        | (tokens, .nothing) => tokens.map .ok ++ scan none rest
        | (tokens, .valueOf key) => tokens.map .ok ++ scan (some key) rest
        | (tokens, .refused e) => tokens.map .ok ++ [.error e]

end BenchLedger.CommandLine
