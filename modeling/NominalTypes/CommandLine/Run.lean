import NominalTypes.Catalog.Loading
import NominalTypes.CommandLine.Arguments

namespace NominalTypes.CommandLine

/-- Why there is no catalog to run a command on. -/
inductive FileError where
  | unreadable (path : String)
  | invalid (path : String) (error : LoadError)
  deriving DecidableEq

namespace FileError

/-- What went wrong, from the whole to the part. -/
def chain : FileError → List String
  | .unreadable path => ["failed to read catalog " ++ path]
  | .invalid path error => ("invalid catalog " ++ path) :: error.chain

def code? : FileError → Option Code
  | .unreadable _ => none
  | .invalid _ error => error.code?

end FileError

/-- Runs a command line, given the contents of its catalog file.  Diagnostics
have colours only on a terminal. -/
def Invocation.run (invocation : Invocation) (contents : Option String)
    (terminal : Bool) : Except FileError Output :=
  match contents with
  | none => .error (.unreadable invocation.catalog)
  | some text =>
    match Registry.ofText text with
    | .error error => .error (.invalid invocation.catalog error)
    | .ok registry =>
      let color := terminal && !invocation.noColor
      let pool := Pool.empty (!invocation.noCache) false
      .ok ((Session.execute registry invocation.format color
        invocation.command).run pool).1

end NominalTypes.CommandLine
