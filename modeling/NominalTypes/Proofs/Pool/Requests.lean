import NominalTypes.Pool.Query
import NominalTypes.Proofs.Inference.AncestorViews
import NominalTypes.Proofs.Renaming.Bare

namespace NominalTypes

/-! Declarations and questions in any order, as they are made of a registry
together with a pool.

Types that are needed are taken from a shelf, on which the types of all earlier
answers stand. -/

/-- A question about types, each of which is given by an `α`. -/
inductive Question (α : Type) where
  | resolve (id : TypeId) (args : List α)
  | resolveRaw (id : TypeId)
  | infer (known : α) (target : TypeId)
  | viewAs (ty : α) (target : TypeId)
  | slotsAs (ty : α) (target : TypeId)
  | superclass (ty : α)
  | interfaces (ty : α)
  | parentAlong (ty : α) (edge : Edge)
  | ancestors (ty : α)
  | slot (ty : α) (index : Nat)
  | brief (ty : α)
  | signature (ty : α)
  | fullDescription (ty : α)
  | same (ty other : α)
  | clear

inductive Answer where
  /-- The types that were asked for; `none` where there is none. -/
  | types (found : List (Option Ty))
  | text (text : String)
  | truth (truth : Bool)
  | refused (error : TypeError)
  | declared (id : TypeId)
  | linked
  | rejected (error : LinkError)
  | done
  /-- The request was for types that do not stand on the shelf. -/
  | missing

/-- An argument of a parent, with places on the shelf for the closed types. -/
inductive Draft where
  | slot (index : Nat)
  | held (place : Nat)
  | apply (id : TypeId) (args : List Draft)

inductive Request where
  | declare (kind : Kind) (name : String) (params : List String)
  | setSuperclass (owner : TypeId) (parent : TypeId) (args : List Draft)
  | addInterface (owner : TypeId) (parent : TypeId) (args : List Draft)
  /-- A question about types at places on the shelf. -/
  | ask (question : Question Nat)

/-- The declarations, and the types of the answers so far. -/
structure Scene where
  registry : Registry
  shelf : List Ty

namespace Question

variable {α β : Type}

def types : Question α → List α
  | .resolve _ args => args
  | .infer ty _ | .viewAs ty _ | .slotsAs ty _ => [ty]
  | .superclass ty | .interfaces ty | .parentAlong ty _ | .ancestors ty => [ty]
  | .slot ty _ | .brief ty | .signature ty | .fullDescription ty => [ty]
  | .same ty other => [ty, other]
  | .resolveRaw _ | .clear => []

def map (image : α → β) : Question α → Question β
  | .resolve id args => .resolve id (args.map image)
  | .resolveRaw id => .resolveRaw id
  | .infer known target => .infer (image known) target
  | .viewAs ty target => .viewAs (image ty) target
  | .slotsAs ty target => .slotsAs (image ty) target
  | .superclass ty => .superclass (image ty)
  | .interfaces ty => .interfaces (image ty)
  | .parentAlong ty edge => .parentAlong (image ty) edge
  | .ancestors ty => .ancestors (image ty)
  | .slot ty index => .slot (image ty) index
  | .brief ty => .brief (image ty)
  | .signature ty => .signature (image ty)
  | .fullDescription ty => .fullDescription (image ty)
  | .same ty other => .same (image ty) (image other)
  | .clear => .clear

/-- The question about the images, if there is one for each of the
things it is about. -/
def replace (image : α → Option β) : Question α → Option (Question β)
  | .resolve id args => return .resolve id (← args.mapM image)
  | .resolveRaw id => some (.resolveRaw id)
  | .infer known target => return .infer (← image known) target
  | .viewAs ty target => return .viewAs (← image ty) target
  | .slotsAs ty target => return .slotsAs (← image ty) target
  | .superclass ty => return .superclass (← image ty)
  | .interfaces ty => return .interfaces (← image ty)
  | .parentAlong ty edge => return .parentAlong (← image ty) edge
  | .ancestors ty => return .ancestors (← image ty)
  | .slot ty index => return .slot (← image ty) index
  | .brief ty => return .brief (← image ty)
  | .signature ty => return .signature (← image ty)
  | .fullDescription ty => return .fullDescription (← image ty)
  | .same ty other => return .same (← image ty) (← image other)
  | .clear => some .clear

end Question

namespace Answer

def ofResult : Except TypeError Ty → Answer
  | .ok ty => .types [some ty]
  | .error error => .refused error

def ofSlots : Except TypeError Ty → Answer
  | .ok ty => .types ty.slots
  | .error error => .refused error

/-- The types in an answer. -/
def held : Answer → List Ty
  | .types found => found.filterMap fun slot => slot
  | _ => []

def bare : Answer → Answer
  | .types found => .types (found.map (Option.map Ty.bare))
  | other => other

end Answer

mutual

def Draft.term (shelf : List Ty) : Draft → Option Term
  | .slot index => some (.slot index)
  | .held place => shelf[place]?.map .closed
  | .apply id args => (Draft.terms shelf args).map (.apply id)

def Draft.terms (shelf : List Ty) : List Draft → Option (List Term)
  | [] => some []
  | arg :: rest => do return (← arg.term shelf) :: (← terms shelf rest)

end

/-! Answers that are computed anew from the declarations as they are. -/

namespace Catalog

def resolve (catalog : Catalog) (id : TypeId) (args : List Ty) :
    Except TypeError Ty := do
  if !catalog.contains id then throw (.unknownId id)
  return ⟨id, catalog.name id, ← catalog.bindSlots id args, none⟩

def resolveRaw (catalog : Catalog) (id : TypeId) : Except TypeError Ty := do
  if !catalog.contains id then throw (.unknownId id)
  return catalog.raw id

def view (catalog : Catalog) (ty : Ty) (target : TypeId) :
    Except TypeError Ty :=
  match catalog.viewAs ty target with
  | some view => .ok view
  | none => .error (.noSuchAncestor ty.name (catalog.name target))

def answer (catalog : Catalog) : Question Ty → Answer
  | .resolve id args => .ofResult (catalog.resolve id args)
  | .resolveRaw id => .ofResult (catalog.resolveRaw id)
  | .infer known target => .ofResult (catalog.infer known target)
  | .viewAs ty target => .ofResult (catalog.view ty target)
  | .slotsAs ty target => .ofSlots (catalog.view ty target)
  | .superclass ty => .types [(catalog.parentTypes ty).superclass]
  | .interfaces ty => .types ((catalog.parentTypes ty).interfaces.map some)
  | .parentAlong ty edge => .types [(catalog.parentTypes ty).along? edge]
  | .ancestors ty => .types ((catalog.ancestors ty).map some)
  | .slot ty index => .types [ty.slot? index]
  | .brief ty => .text ty.brief
  | .signature ty => .text ty.signature
  | .fullDescription ty => .text (catalog.fullDescription ty)
  | .same ty other => .truth (ty == other)
  | .clear => .done

end Catalog

/-- The answer of a pool, from what it remembers and keeps. -/
def Pool.answer (catalog : Catalog) : Question Ty → PoolM Answer
  | .resolve id args => return .ofResult (← (resolve catalog id args).run)
  | .resolveRaw id => return .ofResult (← (resolveRaw catalog id).run)
  | .infer known target => return .ofResult (← (infer catalog known target).run)
  | .viewAs ty target => return .ofResult (← (viewAs catalog ty target).run)
  | .slotsAs ty target => return .ofSlots (← (viewAs catalog ty target).run)
  | .superclass ty => return .types [(← parentTypes catalog ty).superclass]
  | .interfaces ty =>
      return .types ((← parentTypes catalog ty).interfaces.map some)
  | .parentAlong ty edge =>
      return .types [(← parentTypes catalog ty).along? edge]
  | .ancestors ty => return .types ((← ancestors catalog ty).map some)
  | .slot ty index => return .types [ty.slot? index]
  | .brief ty => return .text ty.brief
  | .signature ty => return .text ty.signature
  | .fullDescription ty => return .text (← fullDescription catalog ty)
  | .same ty other => return .truth (ty == other)
  | .clear => do
    clear
    return .done

namespace Scene

def empty : Scene := ⟨.empty, []⟩

/-- What becomes of a call that gives a declaration a parent. -/
def settle (scene : Scene) : Except LinkError Registry → Answer × Scene
  | .ok registry => (.linked, { scene with registry })
  | .error error => (.rejected error, scene)

variable {m : Type → Type} [Monad m] (ask : Catalog → Question Ty → m Answer)

def perform (scene : Scene) : Request → m (Answer × Scene)
  | .declare kind name params =>
    let (id, registry) := scene.registry.declare kind name params
    pure (.declared id, { scene with registry })
  | .setSuperclass owner parent args =>
    match Draft.terms scene.shelf args with
    | none => pure (.missing, scene)
    | some args =>
        pure (scene.settle (scene.registry.setSuperclass owner ⟨parent, args⟩))
  | .addInterface owner parent args =>
    match Draft.terms scene.shelf args with
    | none => pure (.missing, scene)
    | some args =>
        pure (scene.settle (scene.registry.addInterface owner ⟨parent, args⟩))
  | .ask question =>
    match question.replace fun place => scene.shelf[place]? with
    | none => pure (.missing, scene)
    | some question => do
      let answer ← ask scene.registry.catalog question
      return (answer, { scene with shelf := scene.shelf ++ answer.held })

def performAll (scene : Scene) : List Request → m (List Answer × Scene)
  | [] => pure ([], scene)
  | request :: rest => do
    let (answer, scene) ← perform ask scene request
    let (answers, scene) ← performAll scene rest
    return (answer :: answers, scene)

end Scene

end NominalTypes
