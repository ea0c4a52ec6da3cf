import TaggedUnion.Command.Basic

/-!
# Command lines

`Command.parse` reads the arguments of the program: first the name of a command, then its options.

* `--name value` and `--name=value` give an option its value, as do `-n value`, `-nvalue` and
  `-n=value` for options with a short name.
* An option for several values takes all arguments up to the next one that starts with a dash, and
  may be repeated. Any other option may be given once.
* A value cannot start with a dash, unless it is attached or a dash alone. Nothing may follow `--`.
* An option is complete when the next one starts or the arguments end. Only then its values are
  looked at.
-/

namespace TaggedUnion.Command

/-- Why arguments are not a command. -/
inductive UsageError where
  | helpAsked
  | versionAsked
  | noCommand
  | unknownCommand
  | unknownArgument
  /-- An option has no value, or an empty path. -/
  | missingValue
  /-- A value for an option that takes none. -/
  | unexpectedValue
  /-- An option is repeated, or given together with one that excludes it. -/
  | conflict
  | missingOption
  deriving DecidableEq, Repr

/-- The wording of an error. -/
def UsageError.message : UsageError → String
  | helpAsked => "commands: value, literal, describe"
  | versionAsked => "union-input"
  | noCommand => "a command is required"
  | unknownCommand => "there is no such command"
  | unknownArgument => "there is no such option"
  | missingValue => "an option lacks its value"
  | unexpectedValue => "an option takes no value"
  | conflict => "options exclude each other"
  | missingOption => "a required option is missing"

/-- The exit status of arguments that are not a command. Asking for help is not a failure. -/
def UsageError.exitCode : UsageError → Nat
  | helpAsked => 0
  | versionAsked => 0
  | _ => 2

/-- The options. -/
inductive OptionKey where
  | schema
  | type
  | ndjson
  | jsonPointer
  | input
  | expr
  | out
  | help
  | version
  deriving DecidableEq, Repr

/-- What an option takes. -/
inductive Arity where
  | flag
  | text
  | path
  | texts
  deriving DecidableEq, Repr

namespace OptionKey

/-- The name of an option behind two dashes. -/
def long : OptionKey → String
  | schema => "schema"
  | type => "type"
  | ndjson => "ndjson"
  | jsonPointer => "json-pointer"
  | input => "input"
  | expr => "expr"
  | out => "out"
  | help => "help"
  | version => "version"

/-- The name of an option behind one dash. -/
def short? : OptionKey → Option Char
  | input => some 'i'
  | expr => some 'e'
  | out => some 'o'
  | help => some 'h'
  | version => some 'V'
  | _ => none

/-- What an option takes. -/
def arity : OptionKey → Arity
  | schema => .path
  | type => .text
  | ndjson => .flag
  | jsonPointer => .text
  | input => .texts
  | expr => .texts
  | out => .path
  | help => .flag
  | version => .flag

end OptionKey

/-- An option with the values of one occurrence. -/
abbrev Given := OptionKey × List String

/-- The options read so far. `pending` is the last one while it is not complete. -/
structure Options where
  given : List Given
  pending : Option Given
  deriving DecidableEq, Repr

namespace Options

/-- No options. -/
def none : Options := ⟨[], .none⟩

/-- Whether an option is given and complete. -/
def has (key : OptionKey) (options : Options) : Bool := options.given.any fun given => given.1 = key

/-- All values of an option. -/
def values (key : OptionKey) (options : Options) : List String :=
  (options.given.filter fun given => given.1 = key).flatMap Prod.snd

/-- Adds a complete occurrence of an option. -/
def add (given : Given) (options : Options) : Except UsageError Options :=
  let (key, values) := given
  if values.isEmpty then .error .missingValue
  else if key.arity ≠ .texts ∧ options.has key then .error .conflict
  else if key.arity = .path ∧ "" ∈ values then .error .missingValue
  else .ok ⟨options.given ++ [given], .none⟩

/-- Completes the pending option. -/
def settle (options : Options) : Except UsageError Options :=
  match options.pending with
  | some given => add given options
  | .none => .ok options

/-- Adds a flag. Help and version end the reading. -/
def addFlag (key : OptionKey) (options : Options) : Except UsageError Options :=
  match settle options with
  | .error error => .error error
  | .ok options =>
    if key = .help then .error .helpAsked
    else if key = .version then .error .versionAsked
    else if options.has key then .error .conflict
    else .ok { options with given := options.given ++ [(key, [])] }

/-- Starts an option that takes values, of which one may be attached. -/
def start (key : OptionKey) (attached : Option String) (options : Options) :
    Except UsageError Options :=
  match settle options with
  | .error error => .error error
  | .ok options =>
    match attached with
    | some value => add (key, [value]) options
    | .none => .ok { options with pending := some (key, []) }

/-- Adds a value to the pending option, if that takes one more. -/
def addValue (value : String) (options : Options) : Except UsageError Options :=
  match options.pending with
  | some (key, values) =>
    if key.arity = .texts ∨ values.isEmpty then
      .ok { options with pending := some (key, values ++ [value]) }
    else .error .unknownArgument
  | .none => .error .unknownArgument

/-- Reads an argument that starts with two dashes. -/
def addLong (keys : List OptionKey) (cs : List Char) (options : Options) :
    Except UsageError Options :=
  let name := String.ofList (cs.takeWhile (· ≠ '='))
  let attached :=
    match cs.dropWhile (· ≠ '=') with
    | [] => Option.none
    | _ :: value => some (String.ofList value)
  match keys.find? fun key => key.long = name with
  | .none => .error .unknownArgument
  | some key =>
    if key.arity ≠ .flag then start key attached options
    else if attached.isSome then .error .unexpectedValue
    else addFlag key options

/-- Reads the letters of an argument that starts with one dash. The first one that takes a value
takes all that follow it. -/
def addShort (keys : List OptionKey) (letters : List Char) (options : Options) :
    Except UsageError Options :=
  match letters with
  | [] => .ok options
  | letter :: rest =>
    match keys.find? fun key => key.short? = some letter with
    | .none => .error .unknownArgument
    | some key =>
      if key.arity = .flag then
        match addFlag key options with
        | .error error => .error error
        | .ok options => addShort keys rest options
      else
        let value := if rest.head? = some '=' then rest.drop 1 else rest
        start key (if rest.isEmpty then .none else some (String.ofList value)) options

/-- Reads one argument. -/
def addArgument (keys : List OptionKey) (options : Options) (argument : String) :
    Except UsageError Options :=
  match argument.toList with
  | '-' :: '-' :: rest => addLong keys rest options
  | ['-'] => addValue argument options
  | '-' :: letters => addShort keys letters options
  | _ => addValue argument options

/-- Reads arguments. -/
def read (keys : List OptionKey) (arguments : List String) : Except UsageError Options :=
  let before := arguments.takeWhile (· ≠ "--")
  let after := (arguments.dropWhile (· ≠ "--")).drop 1
  match before.foldlM (addArgument keys) none with
  | .error error => .error error
  | .ok options => if after.isEmpty then settle options else .error .unknownArgument

/-- The only value of an option that is required. -/
def required (key : OptionKey) (options : Options) : Except UsageError String :=
  match options.values key with
  | value :: _ => .ok value
  | [] => .error .missingOption

end Options

/-! ## Commands -/

/-- The names of commands. -/
inductive CommandName where
  | value
  | literal
  | describe
  deriving DecidableEq, Repr

namespace CommandName

/-- The command of a given name. -/
def ofText? (text : String) : Option CommandName :=
  if text = "value" then some .value
  else if text = "literal" then some .literal
  else if text = "describe" then some .describe
  else none

/-- The options of a command. -/
def keys : CommandName → List OptionKey
  | value => [.schema, .type, .ndjson, .jsonPointer, .input, .out, .help]
  | literal => [.schema, .type, .expr, .input, .out, .help]
  | describe => [.schema, .out, .help]

end CommandName

/-- The union that the options name. -/
def targetOf (options : Options) : Except UsageError Target := do
  return ⟨← options.required .schema, ← options.required .type⟩

/-- The request of a command with its options. -/
def requestOf (name : CommandName) (options : Options) : Except UsageError Request :=
  match name with
  | .value => do
    let target ← targetOf options
    let layout : ValueLayout := ⟨options.has .ndjson, (options.values .jsonPointer).head?⟩
    if !options.has .input then throw .missingOption
    return .checkValues target layout (options.values .input)
  | .literal => do
    if options.has .expr ∧ options.has .input then throw .conflict
    let target ← targetOf options
    if options.has .expr then return .checkLiterals target (.texts (options.values .expr))
    if options.has .input then return .checkLiterals target (.files (options.values .input))
    throw .missingOption
  | .describe => (options.required .schema).map .describe

/-- The command of its name and the arguments behind it. -/
def parseCommand (name : CommandName) (arguments : List String) : Except UsageError Invocation := do
  let options ← Options.read name.keys arguments
  return ⟨← requestOf name options, (options.values .out).head?⟩

/-- Asks for help: about the program, or about one command. -/
def parseHelp : List String → UsageError
  | [] => .helpAsked
  | [topic] =>
    if (CommandName.ofText? topic).isSome ∨ topic = "help" then .helpAsked else .unknownCommand
  | _ => .unknownCommand

/-- What is wrong with arguments that do not start with the name of a command. -/
def parseNoCommand (first : String) (rest : List String) : UsageError :=
  match first.toList with
  | ['-', '-'] =>
    match rest with
    | [] => .noCommand
    | name :: _ =>
      if (CommandName.ofText? name).isSome ∨ name = "help" then .unknownArgument
      else .unknownCommand
  | '-' :: _ :: _ =>
    match Options.none.addArgument [.help, .version] first with
    | .error error => error
    | .ok _ => .unknownCommand
  | _ => .unknownCommand

/-- The command that the arguments of the program are. -/
def parse : List String → Except UsageError Invocation
  | [] => .error .noCommand
  | first :: rest =>
    if first = "help" then .error (parseHelp rest)
    else
      match CommandName.ofText? first with
      | some name => parseCommand name rest
      | none => .error (parseNoCommand first rest)

end TaggedUnion.Command
