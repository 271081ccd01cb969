import NominalTypes.Hierarchy.Path
import NominalTypes.Inference.Matching

/-! Inference of the slots of a type from one of its ancestors. -/

namespace NominalTypes.Catalog

/-- The slots of the ancestor at the end of the steps, when `slots` stand for
the parameters at their beginning. -/
def slotsAlong {α : Type} [SlotAlgebra α] (catalog : Catalog) (slots : List α)
    (steps : List Step) : List α :=
  steps.foldl
    (fun slots step => Term.evaluateAll catalog slots step.parent.args) slots

/-- The slots of the ancestor at the end of the steps, with variables for the
parameters of the target. -/
def viewPatterns (catalog : Catalog) (target : TypeId)
    (steps : List Step) : List Pattern :=
  catalog.slotsAlong ((List.range (catalog.arity target)).map Pattern.var) steps

/-- The most general type with the identity `target` whose view as the identity
of `known` agrees with `known`.  Parameters that the ancestor does not determine
stay unbound. -/
def infer (catalog : Catalog) (known : Ty) (target : TypeId) :
    Except TypeError Ty := do
  if !catalog.contains target then throw (.unknownId target)
  match catalog.path target known.id with
  | none => throw (.notADescendant (catalog.name target) known.name)
  | some steps =>
    let slots ← Pattern.matchAll catalog
      ⟨catalog.name target, catalog.params target⟩ known.name
      known.slots.length 0 (List.replicate (catalog.arity target) none)
      (catalog.viewPatterns target steps) known.slots
    return ⟨target, catalog.name target, slots, none⟩

end NominalTypes.Catalog
