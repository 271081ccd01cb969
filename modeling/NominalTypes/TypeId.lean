namespace NominalTypes

/-- The identity of a declared type.  Declarations are numbered from one in the
order in which they are made. -/
abbrev TypeId := Nat

namespace TypeId

def isValid (id : TypeId) : Bool := 0 < id

def display (id : TypeId) : String := "#" ++ toString id

end TypeId

end NominalTypes
