import NominalTypes.Proofs.Ty.Agreement

namespace NominalTypes.Ty

/-! Properties of all the parts of a type. -/

/-- The property holds of the type and of everything nested in it. -/
inductive Everywhere (property : Ty → Prop) : Ty → Prop
  | mk {ty : Ty} (here : property ty)
      (bound : ∀ inner, some inner ∈ ty.slots → Everywhere property inner) :
      Everywhere property ty

namespace Everywhere

variable {property other : Ty → Prop} {ty : Ty}

theorem here (everywhere : ty.Everywhere property) : property ty := by
  cases everywhere
  assumption

theorem bound (everywhere : ty.Everywhere property) {inner : Ty}
    (member : some inner ∈ ty.slots) : inner.Everywhere property := by
  cases everywhere with
  | mk _ bound => exact bound inner member

theorem imp (implies : ∀ ty, property ty → other ty)
    (everywhere : ty.Everywhere property) : ty.Everywhere other := by
  induction everywhere with
  | mk here _ ih => exact .mk (implies _ here) ih

theorem at? (everywhere : ty.Everywhere property) {position : List Nat}
    {nested : Ty} (found : ty.at? position = some nested) :
    nested.Everywhere property :=
  holds_at? (Everywhere property) (fun _ _ holds member => holds.bound member)
    everywhere found

end Everywhere

theorem wellFormed_iff_everywhere (catalog : Catalog) (ty : Ty) :
    ty.WellFormed catalog ↔ ty.Everywhere fun part =>
      catalog.contains part.id = true ∧
        part.slots.length = catalog.arity part.id := by
  constructor
  · intro wellFormed
    induction wellFormed with
    | mk declared complete _ ih => exact .mk ⟨declared, complete⟩ ih
  · intro everywhere
    induction everywhere with
    | mk here _ ih => exact .mk here.1 here.2 ih

end NominalTypes.Ty
