import NominalTypes.Catalog.Rendering
import NominalTypes.Hierarchy.Path
import NominalTypes.LinkError
import Std.Data.TreeMap

/-! A registry of declarations that accepts a parent only where the
declarations stay sound.

Types are declared first and linked to their parents afterwards, so declarations
may refer to each other in any order. -/

namespace NominalTypes

namespace Term

/-- Whether a declared type may be applied to `found` arguments. -/
def checkHead (catalog : Catalog) (target : TypeId) (found : Nat) :
    Except LinkError Unit :=
  if !catalog.contains target then .error (.unknownId target)
  else if found ≠ catalog.arity target then
    .error (.parentArgumentCount (catalog.name target) (catalog.arity target) found)
  else .ok ()

mutual

/-- Checks an argument of a parent of `owner`. -/
def check (catalog : Catalog) (owner : TypeId) : Term → Except LinkError Unit
  | .slot index =>
    if index < catalog.arity owner then .ok ()
    else .error (.parentSlot (catalog.name owner) (index + 1) (catalog.arity owner))
  | .closed _ => .ok ()
  | .apply id args => do
    checkHead catalog id args.length
    checkAll catalog owner args

def checkAll (catalog : Catalog) (owner : TypeId) :
    List Term → Except LinkError Unit
  | [] => .ok ()
  | arg :: rest => do
    arg.check catalog owner
    checkAll catalog owner rest

end

end Term

/-- Checks that `owner` may have the parent: everything it mentions is declared
and applied to the right number of arguments, and the parent does not derive
from `owner`. -/
def Catalog.checkParent (catalog : Catalog) (owner : TypeId) (parent : Parent) :
    Except LinkError Unit := do
  if !catalog.contains owner then throw (.unknownId owner)
  Term.check catalog owner (.apply parent.id parent.args)
  if catalog.derives parent.id owner then
    throw (.cycle (catalog.name owner) (catalog.name parent.id))

/-- Declarations that can be looked up by name.  A name leads to the first
declaration that has it. -/
structure Registry where
  catalog : Catalog
  names : Std.TreeMap String TypeId

namespace Registry

def empty : Registry :=
  { catalog := .empty fun id => "<unknown " ++ TypeId.display id ++ ">"
    names := ∅ }

def id? (registry : Registry) (name : String) : Option TypeId :=
  registry.names[name]?

/-- Adds a declaration without parents, and gives it the next identity. -/
def declare (registry : Registry) (kind : Kind) (name : String)
    (params : List String) : TypeId × Registry :=
  let id := registry.catalog.size + 1
  (id,
    { catalog := registry.catalog.add ⟨kind, name, params.length, params, none, []⟩
      names := registry.names.insertIfNew name id })

/-- Puts changed declarations in the place of the old ones, under a
new generation. -/
def advance (registry : Registry) (catalog : Catalog) : Registry :=
  { registry with
    catalog := { catalog with generation := registry.catalog.generation + 1 } }

def setSuperclass (registry : Registry) (id : TypeId) (parent : Parent) :
    Except LinkError Registry := do
  let catalog := registry.catalog
  catalog.checkParent id parent
  if catalog.kind parent.id = .interfaceType then
    throw (.superclassIsInterface (catalog.name id) (catalog.name parent.id))
  match catalog.superclass id with
  | some existing =>
    throw (.superclassTaken (catalog.name id) (catalog.describeParent id existing))
  | none => return registry.advance (catalog.putSuperclass id parent)

def addInterface (registry : Registry) (id : TypeId) (parent : Parent) :
    Except LinkError Registry := do
  registry.catalog.checkParent id parent
  return registry.advance (registry.catalog.appendInterface id parent)

end Registry

end NominalTypes
