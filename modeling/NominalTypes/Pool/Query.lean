import NominalTypes.Inference.Basic
import NominalTypes.Pool.Basic

/-! The questions that a pool answers about the types of a catalog. -/

namespace NominalTypes

namespace Catalog

/-- Slots that are bound to the arguments, one for each parameter. -/
def bindSlots (catalog : Catalog) (id : TypeId) (args : List Ty) :
    Except TypeError (List (Option Ty)) :=
  if args.length = catalog.arity id then .ok (args.map some)
  else .error (.argumentCount (catalog.name id) (catalog.arity id) args.length)

end Catalog

namespace Pool

/-- The type with the given slots.  A pool that memoizes hands out the value
that it has, if it has an equal one of the same generation; values of another
generation are forgotten first. -/
def intern (catalog : Catalog) (operation : Operation) (id : TypeId)
    (slots : List (Option Ty)) : PoolM Ty := do
  let query ← startQuery operation id none
  let built : Ty := ⟨id, catalog.name id, slots, none⟩
  let pool ← get
  if !pool.memoize then
    let ty ← keep built
    endQuery query operation true false
    return ty
  let remembered :=
    if pool.generation = catalog.generation then pool.remembered else []
  match remembered.find? (· == built) with
  | some ty =>
    modify fun pool =>
      { pool with
        remembered, generation := catalog.generation, hits := pool.hits + 1 }
    endQuery query operation true true
    return ty
  | none =>
    let ty ← keep built
    modify fun pool =>
      { pool with
        remembered := ty :: remembered
        generation := catalog.generation
        misses := pool.misses + 1 }
    endQuery query operation true false
    return ty

/-- A declared type with its parameters bound to the arguments. -/
def resolve (catalog : Catalog) (id : TypeId) (args : List Ty) :
    ExceptT TypeError PoolM Ty := do
  if !catalog.contains id then throw (.unknownId id)
  match catalog.bindSlots id args with
  | .error error => throw error
  | .ok slots => intern catalog .resolve id slots

/-- A declared type with all its slots unbound. -/
def resolveRaw (catalog : Catalog) (id : TypeId) :
    ExceptT TypeError PoolM Ty := do
  if !catalog.contains id then throw (.unknownId id)
  intern catalog .resolveRaw id (List.replicate (catalog.arity id) none)

/-- As `Catalog.infer`, without a record. -/
def inferQuietly (catalog : Catalog) (known : Ty) (target : TypeId) :
    ExceptT TypeError PoolM Ty := do
  match catalog.infer known target with
  | .error error => throw error
  | .ok ty => keep ty

def infer (catalog : Catalog) (known : Ty) (target : TypeId) :
    ExceptT TypeError PoolM Ty :=
  ExceptT.mk do
    let query ← startQuery .infer known.id (some target)
    let result ← (inferQuietly catalog known target).run
    endQuery query .infer result.isOk false
    return result

/-- As `Catalog.viewAs`, by way of the kept parents. -/
def viewAs? (catalog : Catalog) (ty : Ty)
    (target : TypeId) : PoolM (Option Ty) :=
  match catalog.path ty.id target with
  | none => pure none
  | some steps => climbUsing (parentTypes catalog) ty steps

def viewAs (catalog : Catalog) (ty : Ty) (target : TypeId) :
    ExceptT TypeError PoolM Ty := do
  match ← viewAs? catalog ty target with
  | some view => return view
  | none => throw (.noSuchAncestor ty.name (catalog.name target))

/-- As `Catalog.ancestors`, by way of the kept parents. -/
def ancestors (catalog : Catalog) (ty : Ty) : PoolM (List Ty) :=
  ancestorsUsing (parentTypes catalog) catalog.size ty

def fullDescription (catalog : Catalog) (ty : Ty) : PoolM String := do
  return describeWithParents (catalog.kind ty.id) ty (← parentTypes catalog ty)

/-- Forgets the remembered types, and counts from zero again. -/
def clear : PoolM Unit :=
  modify fun pool => { pool with remembered := [], hits := 0, misses := 0 }

end Pool

namespace Ty

/-- The type bound to the parameter with this name; of several, the first. -/
def slotNamed? (catalog : Catalog) (ty : Ty) (param : String) : Option Ty :=
  ((catalog.params ty.id).idxOf? param).bind ty.slot?

end Ty

end NominalTypes
