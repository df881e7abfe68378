import FragmentRelay.Decimal

/-!
# The command line

There is one command, `relay`, with the options for its input, its output and the time to wait. The
option for the settings file may stand before or after the command; if it stands at both places the
later one counts. An option takes its value from the same word, after an equals sign or right behind
its letter, or from the next word.

Words are read in order. A value that stands in the next word is checked only when the following
option is met, so that an unknown word is reported before a bad value in front of it.
-/

namespace FragmentRelay.CommandLine

/-- What the command line asks for. -/
structure Invocation where
  settings : Option String
  input : String
  output : String
  timeoutSecs : Nat
deriving DecidableEq, Repr

/-- Why there is no invocation. -/
inductive UsageError where
  | displayHelp
  | displayVersion
  | displayHelpOnMissing
  | missingSubcommand
  | missingRequired
  | invalidSubcommand
  | unknownArgument
  | invalidValue
  | valueValidation
  | argumentConflict
  | tooManyValues
deriving DecidableEq, Repr

/-- The word for the kind of a usage error. -/
def UsageError.kind : UsageError → String
  | displayHelp => "DisplayHelp"
  | displayVersion => "DisplayVersion"
  | displayHelpOnMissing => "DisplayHelpOnMissingArgumentOrSubcommand"
  | missingSubcommand => "MissingSubcommand"
  | missingRequired => "MissingRequiredArgument"
  | invalidSubcommand => "InvalidSubcommand"
  | unknownArgument => "UnknownArgument"
  | invalidValue => "InvalidValue"
  | valueValidation => "ValueValidation"
  | argumentConflict => "ArgumentConflict"
  | tooManyValues => "TooManyValues"

/-- The exit code: asking for help or the version is no failure. -/
def UsageError.exitCode : UsageError → Nat
  | displayHelp => 0
  | displayVersion => 0
  | _ => 2

/-! ### Options -/

/-- The places at which options stand. -/
inductive Level where
  | top
  | relay
deriving DecidableEq

/-- The options with a value. -/
inductive Opt where
  | settings
  | input
  | output
  | timeout
deriving DecidableEq

/-- What a name or a letter of an option means. -/
inductive Meaning where
  | value (o : Opt)
  | help
  | version
deriving DecidableEq

/-- The options by name. -/
def byName : Level → String → Option Meaning
  | _, "config" => some (.value .settings)
  | _, "help" => some .help
  | .top, "version" => some .version
  | .relay, "input" => some (.value .input)
  | .relay, "output" => some (.value .output)
  | .relay, "timeout-secs" => some (.value .timeout)
  | _, _ => none

/-- The options by letter. -/
def byLetter : Level → Char → Option Meaning
  | _, 'c' => some (.value .settings)
  | _, 'h' => some .help
  | .top, 'V' => some .version
  | .relay, 'i' => some (.value .input)
  | .relay, 'o' => some (.value .output)
  | _, _ => none

/-! ### The state of reading -/

/-- The values that have been checked, and the option that has not. -/
structure State where
  settings : Option String := none
  input : Option String := none
  output : Option String := none
  timeout : Option Nat := none
  pending : Option (Opt × Option String) := none
  trailing : Bool := false

/-- A path must not be empty. -/
def path? (v : String) : Except UsageError String := if v = "" then .error .invalidValue else .ok v

/-- A number of seconds has 64 bits. -/
def seconds? (v : String) : Except UsageError Nat :=
  match Decimal.natBelow? UInt64.size v.toList with
  | some n => .ok n
  | none => .error .valueValidation

namespace State

/-- Checks a value and keeps it, unless the option has one. -/
def keep (s : State) (o : Opt) (v : String) : Except UsageError State :=
  match o with
  | .settings =>
    if s.settings.isSome then .error .argumentConflict
    else (path? v).map fun p => { s with settings := some p }
  | .input =>
    if s.input.isSome then .error .argumentConflict
    else (path? v).map fun p => { s with input := some p }
  | .output =>
    if s.output.isSome then .error .argumentConflict
    else (path? v).map fun p => { s with output := some p }
  | .timeout =>
    if s.timeout.isSome then .error .argumentConflict
    else (seconds? v).map fun n => { s with timeout := some n }

/-- Checks the option that has not been checked yet; it must have a value. -/
def flush (s : State) : Except UsageError State :=
  match s.pending with
  | none => .ok s
  | some (_, none) => .error .invalidValue
  | some (o, some v) => { s with pending := none }.keep o v

/-- Whether the next word is the value of an option. -/
def awaiting (s : State) : Option Opt :=
  match s.pending with
  | some (o, none) => some o
  | _ => none

/-- Meets an option, with the value from its word if there is one. -/
def meet (s : State) (m : Meaning) (attached : Option String) : Except UsageError State :=
  match m, attached with
  | .value o, some v => s.flush.bind fun s => s.keep o v
  | .value o, none => s.flush.map fun s => { s with pending := some (o, none) }
  | .help, _ => s.flush.bind fun _ => .error .displayHelp
  | .version, _ => s.flush.bind fun _ => .error .displayVersion

/-- Reads a word of letters, each an option, up to the first that takes a value. -/
def letters (level : Level) : List Char → State → Except UsageError State
  | [], s => .ok s
  | c :: rest, s =>
    match byLetter level c with
    | none => .error .unknownArgument
    | some (.value o) =>
      match rest with
      | [] => s.meet (.value o) none
      | '=' :: v => s.meet (.value o) (some (String.ofList v))
      | v => s.meet (.value o) (some (String.ofList v))
    | some m => (s.meet m none).bind (letters level rest)

/-- Reads a word that starts with two dashes. -/
def long (level : Level) (word : List Char) (s : State) : Except UsageError State :=
  let name := word.takeWhile (· != '=')
  let attached : Option String :=
    match word.dropWhile (· != '=') with
    | '=' :: v => some (String.ofList v)
    | _ => none
  match byName level (String.ofList name), attached with
  | none, _ => .error .unknownArgument
  | some (.value o), v => s.meet (.value o) v
  | some _, some _ => .error .tooManyValues
  | some m, none => s.meet m none

/-- Reads a word that no command can be: an option, a value, or a word too many. -/
def word (level : Level) (w : String) (s : State) (stray : UsageError) : Except UsageError State :=
  if s.trailing then .error stray
  else
    match w.toList with
    | ['-', '-'] => .ok { s with trailing := true }
    | '-' :: '-' :: name => s.long level name
    | '-' :: c :: rest => s.letters level (c :: rest)
    | _ =>
      match s.awaiting with
      | some o => .ok { s with pending := some (o, some w) }
      | none => .error stray

end State

/-! ### Commands -/

/-- Reads the words after the command. -/
def relayWords : List String → State → Except UsageError State
  | [], s => s.flush
  | w :: rest, s => (s.word .relay w .unknownArgument).bind (relayWords rest)

/-- Reads the command: its input and output are required. -/
def relay (words : List String) : Except UsageError Invocation :=
  match relayWords words {} with
  | .error e => .error e
  | .ok s =>
    match s.input, s.output with
    | some input, some output => .ok ⟨s.settings, input, output, s.timeout.getD 30⟩
    | _, _ => .error .missingRequired

/-- Asks for help about commands: each word must be a command of the one before. -/
def help : List String → UsageError
  | [] => .displayHelp
  | ["relay"] => .displayHelp
  | ["help"] => .displayHelp
  | _ => .invalidSubcommand

/-- The error for a word that is no command: after two dashes a command is out of place. -/
def strayAtTop (s : State) (w : String) : UsageError :=
  if s.trailing && (w == "relay" || w == "help") then .unknownArgument else .invalidSubcommand

/-- Reads the words up to the command and then the command. -/
def topWords : List String → State → Except UsageError Invocation
  | [], s =>
    match s.flush with
    | .error e => .error e
    | .ok s => if s.settings.isSome then .error .missingSubcommand else .error .displayHelpOnMissing
  | w :: rest, s =>
    if !s.trailing && s.awaiting.isNone && w == "help" then .error (help rest)
    else if !s.trailing && s.awaiting.isNone && w == "relay" then
      match relay rest with
      | .error e => .error e
      | .ok i =>
        match s.flush with
        | .error e => .error e
        | .ok s => .ok { i with settings := i.settings.or s.settings }
    else (s.word .top w (strayAtTop s w)).bind (topWords rest)

/-- What a command line asks for. -/
def parse (words : List String) : Except UsageError Invocation := topWords words {}

end FragmentRelay.CommandLine
