import NominalTypes.Document.Basic

/-! Documents as compact JSON text, without any blanks between the tokens. -/

namespace NominalTypes.Document

/-- A character of a quoted text.  Quotes, backslashes and control characters
are escaped, all else stands for itself. -/
def escape (c : Char) : String :=
  if c == '"' then "\\\""
  else if c == '\\' then "\\\\"
  else if c == '\x08' then "\\b"
  else if c == '\x0c' then "\\f"
  else if c == '\n' then "\\n"
  else if c == '\r' then "\\r"
  else if c == '\t' then "\\t"
  else if c.toNat < 32 then
    "\\u00" ++ String.ofList
      [Nat.digitChar (c.toNat / 16), Nat.digitChar (c.toNat % 16)]
  else String.singleton c

def quote (text : String) : String :=
  "\"" ++ String.join (text.toList.map escape) ++ "\""

mutual

def print : Document → String
  | .null => "null"
  | .truth value => if value then "true" else "false"
  | .number spelling => spelling
  | .text value => quote value
  | .list items => "[" ++ ",".intercalate (printItems items) ++ "]"
  | .record fields => "\x7b" ++ ",".intercalate (printFields fields) ++ "\x7d"

def printItems : List Document → List String
  | [] => []
  | item :: rest => item.print :: printItems rest

def printFields : List (String × Document) → List String
  | [] => []
  | field :: rest => printField field :: printFields rest

def printField : String × Document → String
  | (key, value) => quote key ++ ":" ++ value.print

end

end NominalTypes.Document
