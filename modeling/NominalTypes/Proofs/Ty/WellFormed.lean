import NominalTypes.Proofs.Catalog.Declarations

namespace NominalTypes.Ty

/-! Types that fit a catalog. -/

/-- Every identity in the type is declared, and has one slot for each of
its parameters. -/
inductive WellFormed (catalog : Catalog) : Ty → Prop
  | mk {ty : Ty} (declared : catalog.contains ty.id = true)
      (complete : ty.slots.length = catalog.arity ty.id)
      (bound : ∀ inner, some inner ∈ ty.slots → WellFormed catalog inner) :
      WellFormed catalog ty

namespace WellFormed

variable {catalog : Catalog} {ty : Ty}

theorem declared (wellFormed : ty.WellFormed catalog) :
    catalog.contains ty.id = true := by
  cases wellFormed
  assumption

theorem complete (wellFormed : ty.WellFormed catalog) :
    ty.slots.length = catalog.arity ty.id := by
  cases wellFormed
  assumption

theorem bound (wellFormed : ty.WellFormed catalog) {inner : Ty}
    (member : some inner ∈ ty.slots) : inner.WellFormed catalog := by
  cases wellFormed with
  | mk _ _ bound => exact bound inner member

theorem of_extends {before after : Catalog} (extension : before.Extends after)
    (wellFormed : ty.WellFormed before) : ty.WellFormed after := by
  induction wellFormed with
  | mk declared complete _ ih =>
      exact .mk (extension.contains declared)
        (complete.trans (extension.arity declared).symm) ih

end WellFormed

/-! Whether a type fits can be computed. -/

variable (catalog : Catalog)

mutual

def fits : Ty → Bool
  | ⟨id, _, slots, _⟩ =>
    catalog.contains id && slots.length == catalog.arity id && slotsFit slots

def slotsFit : List (Option Ty) → Bool
  | [] => true
  | slot :: slots => slotFits slot && slotsFit slots

def slotFits : Option Ty → Bool
  | none => true
  | some ty => ty.fits

end

theorem slotsFit_eq_all (slots : List (Option Ty)) :
    slotsFit catalog slots = slots.all (slotFits catalog) := by
  induction slots with
  | nil => rfl
  | cons slot slots ih => rw [slotsFit, ih, List.all_cons]

theorem fits_iff (ty : Ty) :
    ty.fits catalog = true ↔ ty.WellFormed catalog := by
  induction ty with
  | mk id name slots handle ih =>
      simp only [fits, Bool.and_eq_true, beq_iff_eq, slotsFit_eq_all,
        List.all_eq_true]
      constructor
      · rintro ⟨⟨declared, complete⟩, each⟩
        exact .mk declared complete fun inner member =>
          (ih inner member).mp (each _ member)
      · intro wellFormed
        refine ⟨⟨wellFormed.declared, wellFormed.complete⟩,
          fun slot member => ?_⟩
        cases slot with
        | none => rfl
        | some inner => exact (ih inner member).mpr (wellFormed.bound member)

instance (ty : Ty) : Decidable (ty.WellFormed catalog) :=
  decidable_of_iff _ (fits_iff catalog ty)

end NominalTypes.Ty
