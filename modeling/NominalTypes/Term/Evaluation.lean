import NominalTypes.Catalog.Basic

/-! The value of an argument once something stands in the parameters of the
declaring type. -/

namespace NominalTypes

/-- What can stand in the parameters of a declaration while its arguments
are evaluated. -/
class SlotAlgebra (α : Type) where
  unbound : α
  ofType : Ty → α
  apply : Catalog → TypeId → List α → α

namespace Term

variable {α : Type} [SlotAlgebra α]

mutual

/-- A position that has nothing in it has the value of an unbound slot. -/
def evaluate (catalog : Catalog) (slots : List α) : Term → α
  | .slot index => slots[index]?.getD SlotAlgebra.unbound
  | .closed ty => SlotAlgebra.ofType ty
  | .apply id args =>
      SlotAlgebra.apply catalog id (evaluateAll catalog slots args)

def evaluateAll (catalog : Catalog) (slots : List α) : List Term → List α
  | [] => []
  | arg :: rest => arg.evaluate catalog slots :: evaluateAll catalog slots rest

end

@[simp] theorem evaluate_slot (catalog : Catalog) (slots : List α)
    (index : Nat) :
    (slot index).evaluate catalog slots =
      slots[index]?.getD SlotAlgebra.unbound := rfl

@[simp] theorem evaluate_closed (catalog : Catalog) (slots : List α) (ty : Ty) :
    (closed ty).evaluate catalog slots = SlotAlgebra.ofType ty := rfl

theorem evaluateAll_eq_map (catalog : Catalog) (slots : List α)
    (args : List Term) :
    evaluateAll catalog slots args = args.map (evaluate catalog slots) := by
  induction args with
  | nil => rfl
  | cons arg rest ih => rw [evaluateAll, ih, List.map_cons]

theorem evaluate_apply (catalog : Catalog) (slots : List α) (id : TypeId)
    (args : List Term) :
    (apply id args).evaluate catalog slots =
      SlotAlgebra.apply catalog id (args.map (evaluate catalog slots)) := by
  rw [evaluate, evaluateAll_eq_map]

end Term

/-- Slots of types are evaluated to slots of types. -/
instance : SlotAlgebra (Option Ty) where
  unbound := none
  ofType := some
  apply catalog id args := some ⟨id, catalog.name id, args, none⟩

end NominalTypes
