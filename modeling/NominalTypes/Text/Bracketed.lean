/-! Lists of texts as the arguments of a name. -/

namespace NominalTypes.Text

/-- The parts between angle brackets, with commas between them; nothing at all
when there are none. -/
def bracketed (parts : List String) : String :=
  if parts.isEmpty then "" else "<" ++ ",".intercalate parts ++ ">"

@[simp] theorem bracketed_nil : bracketed [] = "" := rfl

@[simp] theorem bracketed_cons (first : String) (rest : List String) :
    bracketed (first :: rest) = "<" ++ ",".intercalate (first :: rest) ++ ">" :=
  rfl

end NominalTypes.Text
