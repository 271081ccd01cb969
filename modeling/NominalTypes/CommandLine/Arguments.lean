import NominalTypes.Logging
import NominalTypes.Session.Basic

/-! The arguments of the command line.

Options come first, then the name of a command, then its operands.  The value
of an option is looked at only when the next option is read or when all
arguments have been read, so what is wrong with a value is not always what is
reported first. -/

namespace NominalTypes.CommandLine

/-- What is wrong with the arguments, or what they ask for instead
of a command. -/
inductive UsageError where
  | invalidValue
  | unknownArgument
  | unknownCommand
  | repeatedOption
  | missingCommand
  | missingArgument
  | unexpectedValue
  | help
  | version
  | noArguments
  deriving DecidableEq

/-- An option that has a value. -/
inductive Setting where
  | catalog
  | format
  | log
  | logFormat
  deriving DecidableEq

/-- An option that has none. -/
inductive Switch where
  | noCache
  | noColor
  | traceQueries
  deriving DecidableEq

/-- What an option asks for. -/
inductive OptionKind where
  | setting (setting : Setting)
  | switch (switch : Switch)
  | help
  | version

def longOption? (name : String) : Option OptionKind :=
  match name with
  | "catalog" => some (.setting .catalog)
  | "format" => some (.setting .format)
  | "log" => some (.setting .log)
  | "log-format" => some (.setting .logFormat)
  | "no-cache" => some (.switch .noCache)
  | "no-color" => some (.switch .noColor)
  | "trace-queries" => some (.switch .traceQueries)
  | "help" => some .help
  | "version" => some .version
  | _ => none

def shortOption? (letter : Char) : Option OptionKind :=
  match letter with
  | 'c' => some (.setting .catalog)
  | 'h' => some .help
  | 'V' => some .version
  | _ => none

inductive CommandName where
  | resolve
  | subtype
  | supertype
  | ancestors
  | declarations
  deriving DecidableEq

namespace CommandName

def ofText? (text : String) : Option CommandName :=
  match text with
  | "resolve" => some .resolve
  | "subtype" => some .subtype
  | "supertype" => some .supertype
  | "ancestors" => some .ancestors
  | "declarations" => some .declarations
  | _ => none

/-- How many operands the command has. -/
def operands : CommandName → Nat
  | .resolve | .ancestors => 1
  | .subtype | .supertype => 2
  | .declarations => 0

/-- The command with these operands; nothing if their number is wrong. -/
def withOperands? : CommandName → List String → Option Command
  | .resolve, [type] => some (.resolve type)
  | .subtype, [ancestor, target] => some (.subtype ancestor target)
  | .supertype, [type, ancestor] => some (.supertype type ancestor)
  | .ancestors, [type] => some (.ancestors type)
  | .declarations, [] => some .declarations
  | _, _ => none

end CommandName

/-- An argument as its first characters class it. -/
inductive Shape where
  /-- Two dashes alone: what follows is not an option. -/
  | escape
  | long (name : String) (value : Option String)
  /-- A dash and a letter, and what is attached to them. -/
  | short (letter : Char) (attached : String)
  | word

/-- Splits a text at its first equals sign. -/
def splitValue : List Char → List Char × Option (List Char)
  | [] => ([], none)
  | '=' :: rest => ([], some rest)
  | c :: rest =>
    let (name, value) := splitValue rest
    (c :: name, value)

def Shape.ofText (text : String) : Shape :=
  match text.toList with
  | ['-', '-'] => .escape
  | '-' :: '-' :: rest =>
    let (name, value) := splitValue rest
    .long (String.ofList name) (value.map String.ofList)
  | '-' :: letter :: rest => .short letter (String.ofList rest)
  | _ => .word

/-- The value attached to a short option; an equals sign before it does not
belong to it. -/
def attachedValue? (attached : String) : Option String :=
  match attached.toList with
  | [] => none
  | '=' :: rest => some (String.ofList rest)
  | rest => some (String.ofList rest)

/-- What the options have said, each at most once.  `pending` is an option whose
value has not been looked at, or has not been read. -/
structure Progress where
  catalog : Option String
  format : Option Format
  log : Option String
  logFormat : Option Logging.Layout
  noCache : Bool
  noColor : Bool
  traceQueries : Bool
  pending : Option (Setting × Option String)

namespace Progress

def start : Progress :=
  { catalog := none, format := none, log := none, logFormat := none,
    noCache := false, noColor := false, traceQueries := false, pending := none }

def isAwaiting (progress : Progress) : Bool :=
  match progress.pending with
  | some (_, none) => true
  | _ => false

/-- Whether no option has been given. -/
def isEmpty (progress : Progress) : Bool :=
  progress.catalog.isNone && progress.format.isNone && progress.log.isNone &&
    progress.logFormat.isNone && !progress.noCache && !progress.noColor &&
    !progress.traceQueries

end Progress

/-- The value with this name, in any case. -/
def choose? {α : Type} (choices : List (String × α))
    (value : String) : Option α :=
  choices.lookup (value.map Char.toLower)

def formatOf? : String → Option Format :=
  choose? [("text", .text), ("json", .json)]

def layoutOf? : String → Option Logging.Layout :=
  choose? [("text", .text), ("tree", .tree), ("json", .json)]

namespace Progress

/-- Gives an option its value. -/
def store (progress : Progress) (setting : Setting) (value : String) :
    Except UsageError Progress :=
  match setting with
  | .catalog =>
    if progress.catalog.isSome then .error .repeatedOption
    else if value.isEmpty then .error .invalidValue
    else .ok { progress with catalog := some value }
  | .format =>
    if progress.format.isSome then .error .repeatedOption
    else match formatOf? value with
      | some format => .ok { progress with format := some format }
      | none => .error .invalidValue
  | .log =>
    if progress.log.isSome then .error .repeatedOption
    else .ok { progress with log := some value }
  | .logFormat =>
    if progress.logFormat.isSome then .error .repeatedOption
    else match layoutOf? value with
      | some layout => .ok { progress with logFormat := some layout }
      | none => .error .invalidValue

/-- Looks at the value of the pending option. -/
def settle (progress : Progress) : Except UsageError Progress :=
  match progress.pending with
  | none => .ok progress
  | some (_, none) => .error .invalidValue
  | some (setting, some value) =>
      { progress with pending := none }.store setting value

def turnOn (progress : Progress) : Switch → Except UsageError Progress
  | .noCache =>
    if progress.noCache then .error .repeatedOption
    else .ok { progress with noCache := true }
  | .noColor =>
    if progress.noColor then .error .repeatedOption
    else .ok { progress with noColor := true }
  | .traceQueries =>
    if progress.traceQueries then .error .repeatedOption
    else .ok { progress with traceQueries := true }

/-- An option with the value that is attached to it.  One that has no values is
refused if it has one. -/
def readOption (progress : Progress) (option : OptionKind)
    (value : Option String) : Except UsageError Progress := do
  match option, value with
  | .setting setting, some value => (← progress.settle).store setting value
  | .setting setting, none =>
      return { ← progress.settle with pending := some (setting, none) }
  | .switch _, some _ => throw .unexpectedValue
  | .switch switch, none => (← progress.settle).turnOn switch
  | .help, none =>
    discard progress.settle
    throw .help
  | .version, none =>
    discard progress.settle
    throw .version
  | .help, some _ => throw .unexpectedValue
  | .version, some _ => throw .unexpectedValue

end Progress

/-- What a command line asks for. -/
structure Invocation where
  catalog : String
  format : Format
  noCache : Bool
  noColor : Bool
  log : Option String
  logFormat : Option Logging.Layout
  traceQueries : Bool
  command : Command
  deriving DecidableEq

/-- Reads the operands of a command.  `escaped` says that two dashes
have been read. -/
def readOperands (name : CommandName) (escaped : Bool)
    (operands : List String) :
    List String → Except UsageError Command
  | [] =>
    match name.withOperands? operands with
    | some command => .ok command
    | none => .error .missingArgument
  | arg :: rest =>
    let operand :=
      if operands.length < name.operands then
        readOperands name escaped (operands ++ [arg]) rest
      else .error .unknownArgument
    if escaped then operand
    else match Shape.ofText arg with
      | .escape => readOperands name true operands rest
      | .long "help" none => .error .help
      | .long "help" (some _) => .error .unexpectedValue
      | .short 'h' _ => .error .help
      | .long _ _ => .error .unknownArgument
      | .short _ _ => .error .unknownArgument
      | .word => operand

/-- The names after `help` lead from a command to its parts, and no command but
`help` has parts of its own. -/
def readHelp : List String → UsageError
  | [] => .help
  | [name] =>
    if (CommandName.ofText? name).isSome || name == "help" then .help
    else .unknownCommand
  | _ => .unknownCommand

/-- The end of the options without a command. -/
def withoutCommand (progress : Progress) : UsageError :=
  match progress.settle with
  | .error error => error
  | .ok progress =>
    if progress.isEmpty then .noArguments else .missingCommand

/-- The options together with a command. -/
def withCommand (progress : Progress) (command : Command) :
    Except UsageError Invocation := do
  let progress ← progress.settle
  match progress.catalog with
  | none => throw .missingArgument
  | some catalog =>
    return {
      catalog
      format := progress.format.getD .text
      noCache := progress.noCache
      noColor := progress.noColor
      log := progress.log
      logFormat := progress.logFormat
      traceQueries := progress.traceQueries
      command }

/-- Reads arguments up to the command, and the command with its operands. -/
def readArguments (progress : Progress) :
    List String → Except UsageError Invocation
  | [] => .error (withoutCommand progress)
  | arg :: rest =>
    let command := if progress.isAwaiting then none else CommandName.ofText? arg
    match command with
    | some name => do withCommand progress (← readOperands name false [] rest)
    | none =>
      if !progress.isAwaiting && arg == "help" then .error (readHelp rest)
      else match Shape.ofText arg with
        | .escape =>
          match rest with
          | [] => .error (withoutCommand progress)
          | word :: _ =>
            if (CommandName.ofText? word).isSome || word == "help" then
              .error .unknownArgument
            else .error .unknownCommand
        | .long name value =>
          match longOption? name with
          | none => .error .unknownArgument
          | some option => do
            readArguments (← progress.readOption option value) rest
        | .short letter attached =>
          match shortOption? letter with
          | none => .error .unknownArgument
          | some (.setting setting) => do
            readArguments (← progress.readOption (.setting setting)
              (attachedValue? attached)) rest
          | some option => do
            readArguments (← progress.readOption option none) rest
        | .word =>
          match progress.pending with
          | some (setting, none) =>
            readArguments
              { progress with pending := some (setting, some arg) } rest
          | _ => .error .unknownCommand

namespace Invocation

def ofArguments (args : List String) : Except UsageError Invocation :=
  readArguments .start args

end Invocation

end NominalTypes.CommandLine
