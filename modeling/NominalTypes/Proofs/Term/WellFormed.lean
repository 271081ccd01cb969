import NominalTypes.Proofs.Ty.WellFormed

namespace NominalTypes

/-! Terms that fit a catalog. -/

/-- A parent as a term in the parameters of the type that declares it. -/
def Parent.term (parent : Parent) : Term := .apply parent.id parent.args

namespace Term

/-- What holds of an application whenever it holds of the arguments holds of
every term, if it holds of slots and closed types. -/
@[induction_eliminator]
theorem induction {motive : Term → Prop} (slot : ∀ index, motive (.slot index))
    (closed : ∀ ty, motive (.closed ty))
    (apply : ∀ id args, (∀ arg ∈ args, motive arg) → motive (.apply id args))
    (term : Term) : motive term :=
  Term.rec (motive_1 := motive)
    (motive_2 := fun args => ∀ arg ∈ args, motive arg)
    slot closed apply (fun _ member => nomatch member)
    (fun _ _ first others arg member => by
      rcases List.mem_cons.mp member with rfl | later
      · exact first
      · exact others arg later)
    term

/-- Slots are among the first `arity` ones, and applied identities are declared
and have the right number of arguments.  Nothing is said of closed types. -/
inductive WellFormed (catalog : Catalog) (arity : Nat) : Term → Prop
  | slot {index : Nat} (bound : index < arity) :
      WellFormed catalog arity (.slot index)
  | closed (ty : Ty) : WellFormed catalog arity (.closed ty)
  | apply {id : TypeId} {args : List Term}
      (declared : catalog.contains id = true)
      (complete : args.length = catalog.arity id)
      (fitting : ∀ arg ∈ args, WellFormed catalog arity arg) :
      WellFormed catalog arity (.apply id args)

/-- All the closed types in the term have the property. -/
inductive AllClosed (property : Ty → Prop) : Term → Prop
  | slot (index : Nat) : AllClosed property (.slot index)
  | closed {ty : Ty} (holds : property ty) : AllClosed property (.closed ty)
  | apply {id : TypeId} {args : List Term}
      (inner : ∀ arg ∈ args, AllClosed property arg) :
      AllClosed property (.apply id args)

variable {catalog : Catalog} {arity : Nat}

theorem wellFormed_slot_iff {index : Nat} :
    (slot index).WellFormed catalog arity ↔ index < arity := by
  constructor
  · rintro ⟨bound⟩
    exact bound
  · exact .slot

theorem wellFormed_apply_iff {id : TypeId} {args : List Term} :
    (apply id args).WellFormed catalog arity ↔ catalog.contains id = true ∧
      args.length = catalog.arity id ∧
        ∀ arg ∈ args, arg.WellFormed catalog arity := by
  constructor
  · rintro ⟨⟩
    exact ⟨‹_›, ‹_›, ‹_›⟩
  · rintro ⟨declared, complete, fitting⟩
    exact .apply declared complete fitting

theorem WellFormed.of_extends {before after : Catalog} {term : Term}
    (extension : before.Extends after)
    (wellFormed : term.WellFormed before arity) :
    term.WellFormed after arity := by
  induction wellFormed with
  | slot bound => exact .slot bound
  | closed ty => exact .closed ty
  | apply declared complete _ ih =>
      exact .apply (extension.contains declared)
        (complete.trans (extension.arity declared).symm) ih

theorem AllClosed.imp {first second : Ty → Prop}
    (implies : ∀ ty, first ty → second ty) {term : Term}
    (all : term.AllClosed first) : term.AllClosed second := by
  induction all with
  | slot index => exact .slot index
  | closed holds => exact .closed (implies _ holds)
  | apply _ ih => exact .apply ih

end Term

end NominalTypes
