import NominalTypes.Diagnostic.Code
import NominalTypes.Document.Printer

/-! Diagnostics, and how they are shown. -/

namespace NominalTypes

inductive Category where
  | warning
  | error
  | suggestion
  | message
  deriving DecidableEq

/-- A message with its category and its number; `related` adds notes to it. -/
structure Diagnostic where
  category : Category
  number : Nat
  text : String
  related : List String
  deriving DecidableEq

namespace Category

def label : Category → String
  | .warning => "warning"
  | .error => "error"
  | .suggestion => "suggestion"
  | .message => "message"

/-- The name of the category in a document. -/
def name : Category → String
  | .warning => "Warning"
  | .error => "Error"
  | .suggestion => "Suggestion"
  | .message => "Message"

/-- Bold red, bold yellow, bold blue and bold cyan. -/
def style : Category → String
  | .error => "1;31"
  | .warning => "1;33"
  | .suggestion => "1;34"
  | .message => "1;36"

end Category

/-- The text between the terminal's codes for a style and for the end of all
styles; the bare text without colour. -/
def styled (color : Bool) (style text : String) : String :=
  if color then "\x1b[" ++ style ++ "m" ++ text ++ "\x1b[0m" else text

namespace Diagnostic

/-- An error of a registered kind. -/
def ofCode (code : Code) (args : List String)
    (related : List String) : Diagnostic :=
  ⟨.error, code.number, code.wording.fill args, related⟩

/-- The number as it is shown, after a blank; the number 0 is not shown. -/
def numberLabel (color : Bool) (number : Nat) : String :=
  if number = 0 then "" else " " ++ styled color "94" ("GT" ++ toString number)

def noteLine (color : Bool) (note : String) : String :=
  "\n" ++ styled color "2" "  note" ++ ": " ++ note

/-- One line for the message, and one line for each note. -/
def render (color : Bool) (diagnostic : Diagnostic) : String :=
  styled color diagnostic.category.style diagnostic.category.label ++
    numberLabel color diagnostic.number ++ ": " ++ diagnostic.text ++
    String.join (diagnostic.related.map (noteLine color))

def renderAll (color : Bool) (diagnostics : List Diagnostic) : String :=
  "\n".intercalate (diagnostics.map (render color))

/-- The diagnostic as a record.  Without notes there is no field for them. -/
def document (diagnostic : Diagnostic) : Document :=
  let related :=
    if diagnostic.related.isEmpty then []
    else [("related_information", .list (diagnostic.related.map .text))]
  .record ([("code", .number (toString diagnostic.number)),
    ("category", .text diagnostic.category.name),
    ("message_text", .text diagnostic.text)] ++ related)

end Diagnostic

end NominalTypes
