import NominalTypes.Term.Evaluation

/-! Patterns: types in which variables stand for the parameters of
a declaration. -/

namespace NominalTypes

inductive Pattern where
  /-- The parameter at this position. -/
  | var (index : Nat)
  | unbound
  /-- A type that no variable occurs in. -/
  | closed (ty : Ty)
  /-- An application that a variable occurs in. -/
  | apply (id : TypeId) (args : List Pattern)

namespace Pattern

/-- Whether a pattern in normal form holds a variable. -/
def isOpen : Pattern → Bool
  | .var _ => true
  | .apply _ _ => true
  | .unbound => false
  | .closed _ => false

def closed? : Pattern → Option Ty
  | .closed ty => some ty
  | _ => none

/-- An application in normal form: it is a type as soon as no argument
holds a variable. -/
def application (catalog : Catalog) (id : TypeId)
    (args : List Pattern) : Pattern :=
  if args.any isOpen then .apply id args
  else .closed ⟨id, catalog.name id, args.map closed?, none⟩

mutual

/-- The text of a pattern.  A variable is called by the name of its parameter,
or by its number if it has no name. -/
def describe (catalog : Catalog) (params : List String) : Pattern → String
  | .var index => params[index]?.getD ("#" ++ toString (index + 1))
  | .unbound => "?"
  | .closed ty => ty.brief
  | .apply id args =>
    catalog.name id ++ "<" ++
      ",".intercalate (describeAll catalog params args) ++ ">"

def describeAll (catalog : Catalog) (params : List String) :
    List Pattern → List String
  | [] => []
  | arg :: rest =>
      arg.describe catalog params :: describeAll catalog params rest

end

end Pattern

instance : SlotAlgebra Pattern where
  unbound := .unbound
  ofType := .closed
  apply := Pattern.application

end NominalTypes
