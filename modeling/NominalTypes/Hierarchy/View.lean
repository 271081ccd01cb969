import NominalTypes.Hierarchy.Path
import NominalTypes.Term.Evaluation

/-! Types seen as their ancestors.

Every definition comes in a form that asks a given function for the parents of a
type, and in a form that computes them from the declarations as they are. -/

namespace NominalTypes

/-- The parents of a type, with what its slots hold in the place of
its parameters. -/
structure ParentTypes where
  superclass : Option Ty
  interfaces : List Ty

namespace ParentTypes

/-- The superclass, and then the interfaces in their order. -/
def toList (parents : ParentTypes) : List Ty :=
  parents.superclass.toList ++ parents.interfaces

def along? (parents : ParentTypes) : Edge → Option Ty
  | .superclass => parents.superclass
  | .interface index => parents.interfaces[index]?

end ParentTypes

section

variable {m : Type → Type} [Monad m] (parentsOf : Ty → m ParentTypes)

/-- Follows the steps from a type upwards. -/
def climbUsing (ty : Ty) : List Step → m (Option Ty)
  | [] => pure (some ty)
  | step :: rest => do
    match (← parentsOf ty).along? step.edge with
    | none => pure none
    | some parent => climbUsing parent rest

def ancestorsUsing (size : Nat) (ty : Ty) : m (List Ty) :=
  walkFrom Ty.id (fun ty => do return (← parentsOf ty).toList) size ty

end

/-- The types after a keyword, if there are any. -/
def clause (keyword : String) (types : List Ty) : String :=
  if types.isEmpty then "" else keyword ++ ",".intercalate (types.map Ty.brief)

/-- A type of the given kind with its parents.  An interface extends its
parents; a class extends its superclass and implements the others. -/
def describeWithParents (kind : Kind) (ty : Ty)
    (parents : ParentTypes) : String :=
  match kind with
  | .interfaceType => ty.brief ++ clause " extends " parents.interfaces
  | .classType =>
    ty.brief ++ clause " extends " parents.superclass.toList ++
      clause " implements " parents.interfaces

namespace Catalog

/-- A declared parent of a type whose slots are given. -/
def substitute (catalog : Catalog) (slots : List (Option Ty))
    (parent : Parent) : Ty :=
  ⟨parent.id, catalog.name parent.id,
    Term.evaluateAll catalog slots parent.args, none⟩

def parentTypes (catalog : Catalog) (ty : Ty) : ParentTypes :=
  { superclass := (catalog.superclass ty.id).map (catalog.substitute ty.slots)
    interfaces := (catalog.interfaces ty.id).map (catalog.substitute ty.slots) }

/-- The type itself or its ancestor with the identity `target`. -/
def viewAs (catalog : Catalog) (ty : Ty) (target : TypeId) : Option Ty := do
  let steps ← catalog.path ty.id target
  Id.run (climbUsing (fun ty => pure (catalog.parentTypes ty)) ty steps)

/-- The proper ancestors of a type, one for each identity, in the order
of their paths. -/
def ancestors (catalog : Catalog) (ty : Ty) : List Ty :=
  Id.run (ancestorsUsing (fun ty => pure (catalog.parentTypes ty)) catalog.size ty)

def fullDescription (catalog : Catalog) (ty : Ty) : String :=
  describeWithParents (catalog.kind ty.id) ty (catalog.parentTypes ty)

end Catalog

end NominalTypes
