import NominalTypes.CommandLine.Run

/-! The command line program. -/

namespace NominalTypes.CommandLine

def usage : String :=
  "\n".intercalate
    ["Resolve generic nominal types against a type catalog", "",
      "Usage: -c FILE [OPTIONS] COMMAND", "",
      "Commands:",
      "  resolve TYPE",
      "  subtype ANCESTOR TARGET",
      "  supertype TYPE ANCESTOR",
      "  ancestors TYPE",
      "  declarations", "",
      "Options:",
      "  -c, --catalog FILE",
      "  --format text|json",
      "  --no-cache",
      "  --no-color",
      "  --log FILTER",
      "  --log-format text|tree|json",
      "  --trace-queries"]

def UsageError.text : UsageError → String
  | .invalidValue => "a value is missing or invalid"
  | .unknownArgument => "unexpected argument"
  | .unknownCommand => "unrecognized command"
  | .repeatedOption => "an option is given more than once"
  | .missingCommand => "a command is required"
  | .missingArgument => "a required argument is missing"
  | .unexpectedValue => "an option has a value that takes none"
  | .help | .noArguments => usage
  | .version => "0.1.0"

def contents (path : String) : IO (Option String) := do
  try
    return some (← IO.FS.readFile path)
  catch _ => return none

def runMain (args : List String) : IO UInt32 := do
  match Invocation.ofArguments args with
  | .error .help =>
    IO.println usage
    return 0
  | .error .version =>
    IO.println UsageError.version.text
    return 0
  | .error error =>
    IO.eprintln error.text
    return 2
  | .ok invocation =>
    match invocation.run (← contents invocation.catalog)
      (← (← IO.getStderr).isTty) with
    | .error error =>
      IO.eprintln ("\n".intercalate error.chain)
      return 1
    | .ok output =>
      IO.print output.stdout
      IO.eprint output.stderr
      return output.exitCode.toUInt32

end NominalTypes.CommandLine

def main (args : List String) : IO UInt32 :=
  NominalTypes.CommandLine.runMain args
