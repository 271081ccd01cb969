import NominalTypes.Diagnostic.Basic
import NominalTypes.TypeId

namespace NominalTypes

/-- Why a question about types has no answer.  Types are named as
they are shown. -/
inductive TypeError where
  | argumentCount (name : String) (expected found : Nat)
  | slotIndex (index count : Nat)
  | unknownId (id : TypeId)
  | notADescendant (target ancestor : String)
  /-- The declarations fix the type at a place within the arguments of `owner`,
  and another type stands there.  Positions count from one. -/
  | slotMismatch (owner : String) (position count : Nat)
      (expected found : String)
  /-- A parameter of the target would have to be two types at once. -/
  | parameterConflict (target param first second : String)
  | noSuchAncestor (name target : String)
  deriving DecidableEq

namespace TypeError

def code : TypeError → Code
  | .argumentCount .. => .argumentCount
  | .slotIndex .. => .slotIndex
  | .unknownId _ => .unknownId
  | .notADescendant .. => .notADescendant
  | .slotMismatch .. => .slotMismatch
  | .parameterConflict .. => .parameterConflict
  | .noSuchAncestor .. => .noSuchAncestor

/-- What stands in the places of the wording. -/
def args : TypeError → List String
  | .argumentCount name expected found =>
      [name, toString expected, toString found]
  | .slotIndex index count => [toString index, toString count]
  | .unknownId id => [TypeId.display id]
  | .notADescendant target ancestor => [target, ancestor]
  | .slotMismatch _ position count expected found =>
    [toString position, toString count, expected, found]
  | .parameterConflict target param first second =>
      [param, target, first, second]
  | .noSuchAncestor name target => [name, target]

def related : TypeError → List String
  | .slotMismatch owner .. => ["in the type arguments of " ++ owner]
  | _ => []

def diagnostic (error : TypeError) : Diagnostic :=
  .ofCode error.code error.args error.related

def message (error : TypeError) : String := error.code.wording.fill error.args

end TypeError

end NominalTypes
