namespace NominalTypes

/-- A JSON document.  Numbers keep their spelling, and records the order of
their fields. -/
inductive Document where
  | null
  | truth (value : Bool)
  | number (spelling : String)
  | text (value : String)
  | list (items : List Document)
  | record (fields : List (String × Document))

end NominalTypes
