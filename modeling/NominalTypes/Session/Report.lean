import NominalTypes.Diagnostic.Basic

/-! What the commands of a session report, as text and as JSON. -/

namespace NominalTypes

/-- A parameter and what is bound to it. -/
structure Binding where
  param : String
  bound : Option String
  deriving DecidableEq

inductive Report where
  | resolved (type full : String) (fullyBound : Bool)
  | inferred (ancestor result : String) (bindings : List Binding)
  | viewed (type result : String) (bindings : List Binding)
  | ancestors (type : String) (ancestors : List String)
  | declarations (declarations : List String)
  deriving DecidableEq

def Binding.line (binding : Binding) : String :=
  "  " ++ binding.param ++ " = " ++ binding.bound.getD "?"

def Binding.document (binding : Binding) : Document :=
  .record [("param", .text binding.param),
    ("bound", match binding.bound with | some bound => .text bound | none => .null)]

namespace Report

def lines : Report → List String
  | .resolved type full _ => [type, full]
  | .inferred _ result bindings => result :: bindings.map Binding.line
  | .viewed _ result bindings => result :: bindings.map Binding.line
  | .ancestors _ found => found
  | .declarations heads => heads

/-- The report as text.  Every line is ended. -/
def text (report : Report) : String :=
  String.join (report.lines.map (· ++ "\n"))

/-- The report as a record that begins with the name of the command. -/
def document : Report → Document
  | .resolved type full fullyBound =>
    .record [("command", .text "resolve"), ("ty", .text type),
      ("full", .text full), ("fully_bound", .truth fullyBound)]
  | .inferred ancestor result bindings =>
    .record [("command", .text "subtype"), ("ancestor", .text ancestor),
      ("result", .text result), ("bindings", .list (bindings.map Binding.document))]
  | .viewed type result bindings =>
    .record [("command", .text "supertype"), ("ty", .text type),
      ("result", .text result), ("bindings", .list (bindings.map Binding.document))]
  | .ancestors type found =>
    .record [("command", .text "ancestors"), ("ty", .text type),
      ("ancestors", .list (found.map .text))]
  | .declarations heads =>
    .record [("command", .text "declarations"),
      ("declarations", .list (heads.map .text))]

end Report

/-- How reports and diagnostics are written. -/
inductive Format where
  | text
  | json
  deriving DecidableEq

/-- What a command leaves behind. -/
structure Output where
  exitCode : Nat
  stdout : String
  stderr : String
  deriving DecidableEq

namespace Output

def ofReport (format : Format) (report : Report) : Output :=
  match format with
  | .text => ⟨0, report.text, ""⟩
  | .json => ⟨0, report.document.print ++ "\n", ""⟩

/-- A failure goes to the error output as text, and to the standard
output as JSON. -/
def ofDiagnostic (format : Format) (color : Bool)
    (diagnostic : Diagnostic) : Output :=
  match format with
  | .text => ⟨1, "", diagnostic.render color ++ "\n"⟩
  | .json =>
      ⟨1, (Document.record [("error", diagnostic.document)]).print ++ "\n", ""⟩

end Output

end NominalTypes
