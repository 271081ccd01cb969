import NominalTypes.Term.Basic

/-! Declarations, and catalogs of them. -/

namespace NominalTypes

inductive Kind where
  | classType
  | interfaceType
  deriving DecidableEq

/-- A declared type.  `arity` is the number of its parameters and `params`
are their names. -/
structure Declaration where
  kind : Kind
  name : String
  arity : Nat
  params : List String
  superclass : Option Parent
  interfaces : List Parent

/-- Declarations under the identities one, two, three and so on.  `generation`
says when what has been computed from the parents may be used again: as long as
it stays the same. -/
structure Catalog where
  declarations : Array Declaration
  generation : Nat
  /-- What an identity without a declaration is called. -/
  unknownName : TypeId → String

/-- Names for parameters that have been given none. -/
def numberedParams (arity : Nat) : List String :=
  (List.range arity).map fun index => "T" ++ toString index

namespace Catalog

/-- A catalog without declarations, which calls every identity by
`unknownName`. -/
def empty (unknownName : TypeId → String) : Catalog := ⟨#[], 0, unknownName⟩

def declaration? (catalog : Catalog) : TypeId → Option Declaration
  | 0 => none
  | index + 1 => catalog.declarations[index]?

def contains (catalog : Catalog) (id : TypeId) : Bool :=
  (catalog.declaration? id).isSome

def size (catalog : Catalog) : Nat := catalog.declarations.size

/-- The declared identities in ascending order. -/
def ids (catalog : Catalog) : List TypeId := List.range' 1 catalog.size

/-! An identity without a declaration counts as a class without parameters and
without parents. -/

def name (catalog : Catalog) (id : TypeId) : String :=
  match catalog.declaration? id with
  | some declaration => declaration.name
  | none => catalog.unknownName id

def kind (catalog : Catalog) (id : TypeId) : Kind :=
  match catalog.declaration? id with
  | some declaration => declaration.kind
  | none => .classType

def arity (catalog : Catalog) (id : TypeId) : Nat :=
  match catalog.declaration? id with
  | some declaration => declaration.arity
  | none => 0

def params (catalog : Catalog) (id : TypeId) : List String :=
  match catalog.declaration? id with
  | some declaration => declaration.params
  | none => []

def superclass (catalog : Catalog) (id : TypeId) : Option Parent :=
  match catalog.declaration? id with
  | some declaration => declaration.superclass
  | none => none

def interfaces (catalog : Catalog) (id : TypeId) : List Parent :=
  match catalog.declaration? id with
  | some declaration => declaration.interfaces
  | none => []

/-- The declared parents: the superclass, and then the interfaces
in their order. -/
def steps (catalog : Catalog) (id : TypeId) : List Step :=
  ((catalog.superclass id).map (Step.mk .superclass)).toList ++
    (catalog.interfaces id).mapIdx fun index parent =>
      ⟨.interface index, parent⟩

/-- Adds a declaration.  Its identity is the new size. -/
def add (catalog : Catalog) (declaration : Declaration) : Catalog :=
  { catalog with declarations := catalog.declarations.push declaration }

/-- Changes the declaration of an identity, if there is one. -/
def update (catalog : Catalog) (id : TypeId)
    (change : Declaration → Declaration) : Catalog :=
  match id with
  | 0 => catalog
  | index + 1 =>
      { catalog with declarations := catalog.declarations.modify index change }

def putSuperclass (catalog : Catalog) (id : TypeId)
    (parent : Parent) : Catalog :=
  catalog.update id fun declaration =>
    { declaration with superclass := some parent }

def appendInterface (catalog : Catalog) (id : TypeId)
    (parent : Parent) : Catalog :=
  catalog.update id fun declaration =>
    { declaration with interfaces := declaration.interfaces ++ [parent] }

@[simp] theorem declaration?_zero (catalog : Catalog) :
    catalog.declaration? 0 = none := rfl

@[simp] theorem declaration?_succ (catalog : Catalog) (index : Nat) :
    catalog.declaration? (index + 1) = catalog.declarations[index]? := rfl

end Catalog

end NominalTypes
