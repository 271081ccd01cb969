import NominalTypes.Text.Blank

/-! Which log messages are wanted, and in which layout. -/

namespace NominalTypes.Logging

open NominalTypes.Text

inductive Layout where
  | text
  | tree
  | json
  deriving DecidableEq

namespace Layout

/-- The layout with this name, in any case and with blanks around it; plain text
for any other name.  The names are ASCII, and so is every character whose lower
case is one of their letters. -/
def ofName (name : String) : Layout :=
  let name := (trim name).map Char.toLower
  if name == "tree" then .tree else if name == "json" then .json else .text

end Layout

/-- What to log: directives that select messages, or nothing; and how to lay the
messages out. -/
structure Settings where
  filter : Option String
  layout : Layout
  deriving DecidableEq

/-- The directive that selects the query events of a pool. -/
def queryDirective : String := "gentype::query_json=trace"

/-- The settings that a command line and an environment ask for.  What the
command line says comes first, then the program's own variables, then the
general one.  Directives that are all blank select nothing. -/
def settings (log : Option String) (layout : Option Layout)
    (traceQueries : Bool) (environment : String → Option String) : Settings :=
  let asked := log <|> environment "GENTYPE_LOG" <|> environment "RUST_LOG"
  let filter := asked.filter fun directives => !(trim directives).isEmpty
  { filter :=
      if traceQueries then
        match filter with
        | some directives => some (directives ++ "," ++ queryDirective)
        | none => some queryDirective
      else filter
    layout :=
      (layout <|> (environment "GENTYPE_LOG_FORMAT").map Layout.ofName).getD .text }

end NominalTypes.Logging
