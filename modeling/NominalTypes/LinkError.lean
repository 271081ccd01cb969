import NominalTypes.Diagnostic.Basic
import NominalTypes.TypeId

namespace NominalTypes

/-- Why a declaration cannot be given a parent. -/
inductive LinkError where
  | unknownId (id : TypeId)
  | superclassTaken (name existing : String)
  | parentArgumentCount (target : String) (expected found : Nat)
  /-- The position of the parameter counts from one. -/
  | parentSlot (owner : String) (position arity : Nat)
  | cycle (name ancestor : String)
  | superclassIsInterface (name ancestor : String)
  deriving DecidableEq

namespace LinkError

def code : LinkError → Code
  | .unknownId _ => .unknownId
  | .superclassTaken .. => .superclassTaken
  | .parentArgumentCount .. => .parentArgumentCount
  | .parentSlot .. => .parentSlot
  | .cycle .. => .cycle
  | .superclassIsInterface .. => .superclassIsInterface

/-- What stands in the places of the wording. -/
def args : LinkError → List String
  | .unknownId id => [TypeId.display id]
  | .superclassTaken name existing => [name, existing]
  | .parentArgumentCount target expected found =>
      [target, toString found, toString expected]
  | .parentSlot owner position arity =>
      [toString position, owner, toString arity]
  | .cycle name ancestor => [name, ancestor]
  | .superclassIsInterface name ancestor => [name, ancestor]

def diagnostic (error : LinkError) : Diagnostic :=
  .ofCode error.code error.args []

def message (error : LinkError) : String := error.code.wording.fill error.args

end LinkError

end NominalTypes
