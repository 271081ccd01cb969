import NominalTypes.Diagnostic.Wording

/-! The registered causes of diagnostics, each with a stable number
and a wording. -/

namespace NominalTypes

inductive Code where
  | argumentCount
  | slotIndex
  | unknownId
  | notADescendant
  | slotMismatch
  | parameterConflict
  | noSuchAncestor
  | superclassTaken
  | parentArgumentCount
  | parentSlot
  | cycle
  | superclassIsInterface
  | malformedExpression
  | unknownName
  | partlyBound
  deriving DecidableEq

namespace Code

/-- Questions about types begin with 1, declarations with 2, and
queries with 3. -/
def number : Code → Nat
  | .argumentCount => 1001
  | .slotIndex => 1002
  | .unknownId => 1003
  | .notADescendant => 1101
  | .slotMismatch => 1102
  | .parameterConflict => 1103
  | .noSuchAncestor => 1104
  | .superclassTaken => 2001
  | .parentArgumentCount => 2002
  | .parentSlot => 2003
  | .cycle => 2004
  | .superclassIsInterface => 2005
  | .malformedExpression => 3001
  | .unknownName => 3002
  | .partlyBound => 3003

open Piece in
def wording : Code → Wording
  | .argumentCount =>
    [arg 0, words " declares ", arg 1, words " type parameters, but ", arg 2,
      words " arguments were given"]
  | .slotIndex =>
    [words "type parameter index ", arg 0,
      words " is out of range; only ", arg 1, words " are declared"]
  | .unknownId => [words "unknown type definition ", arg 0]
  | .notADescendant =>
      [words "cannot treat ", arg 0, words " as a subtype of ", arg 1]
  | .slotMismatch =>
    [words "type parameter #", arg 0, words "/", arg 1,
      words " differs; expected ", arg 2, words ", found ", arg 3]
  | .parameterConflict =>
    [words "type parameter ", arg 0, words " of ", arg 1,
      words " is bound to both ", arg 2, words " and ", arg 3]
  | .noSuchAncestor => [arg 0, words " has no ancestor named ", arg 1]
  | .superclassTaken => [arg 0, words " already declares superclass ", arg 1]
  | .parentArgumentCount =>
    [words "ancestor reference to ", arg 0, words " passes ", arg 1,
      words " type arguments, but ", arg 0, words " declares ", arg 2]
  | .parentSlot =>
    [words "ancestor reference uses type parameter #", arg 0,
      words ", but ", arg 1, words " declares only ", arg 2]
  | .cycle =>
    [arg 0, words " cannot inherit from ", arg 1, words ": ", arg 1,
      words " already derives from ", arg 0]
  | .superclassIsInterface =>
    [arg 0, words " cannot use interface ", arg 1, words " as its superclass"]
  | .malformedExpression => [arg 0]
  | .unknownName => [words "unknown type ", arg 0]
  | .partlyBound =>
    [arg 0, words " mixes bound and unbound arguments; use ", arg 1,
      words " for the raw type"]

/-- Every code, in the order of the numbers. -/
def all : List Code :=
  [.argumentCount, .slotIndex, .unknownId, .notADescendant, .slotMismatch,
    .parameterConflict, .noSuchAncestor, .superclassTaken, .parentArgumentCount,
    .parentSlot, .cycle,
    .superclassIsInterface, .malformedExpression, .unknownName, .partlyBound]

def ofNumber? (number : Nat) : Option Code :=
  all.find? fun code => code.number == number

theorem mem_all (code : Code) : code ∈ all := by
  cases code <;> decide

theorem ofNumber?_number (code : Code) : ofNumber? code.number = some code := by
  cases code <;> rfl

end Code

end NominalTypes
