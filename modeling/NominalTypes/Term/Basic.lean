import NominalTypes.Ty

/-! What declarations say about their parents. -/

namespace NominalTypes

/-- An argument of a parent, in terms of the parameters of the type that
declares the parent. -/
inductive Term where
  /-- The parameter at this position. -/
  | slot (index : Nat)
  /-- A type that no parameter occurs in. -/
  | closed (ty : Ty)
  /-- A declared type applied to arguments. -/
  | apply (id : TypeId) (args : List Term)

/-- A declared superclass or interface with its arguments. -/
structure Parent where
  id : TypeId
  args : List Term

/-- Where among the parents of a declaration a parent stands. -/
inductive Edge where
  | superclass
  | interface (index : Nat)
  deriving DecidableEq

/-- A declared parent and its place. -/
structure Step where
  edge : Edge
  parent : Parent

end NominalTypes
