import NominalTypes.Proofs.Registry.Soundness
import NominalTypes.Proofs.Ty.Everywhere

namespace NominalTypes

/-! Types of a catalog, and registries to which only such types are handed. -/

namespace Ty

/-- A part is declared, has a slot for each parameter, and is called as
it is declared. -/
structure Proper (catalog : Catalog) (part : Ty) : Prop where
  declared : catalog.contains part.id = true
  complete : part.slots.length = catalog.arity part.id
  name : part.name = catalog.name part.id

def Belongs (catalog : Catalog) (ty : Ty) : Prop :=
  ty.Everywhere (Proper catalog)

variable {before after : Catalog} {ty : Ty}

theorem Proper.of_extends (extension : before.Extends after)
    (proper : ty.Proper before) : ty.Proper after where
  declared := extension.contains proper.declared
  complete := proper.complete.trans (extension.arity proper.declared).symm
  name := proper.name.trans (extension.name proper.declared).symm

theorem Belongs.of_extends (extension : before.Extends after)
    (belongs : ty.Belongs before) : ty.Belongs after :=
  belongs.imp fun _ proper => proper.of_extends extension

theorem Belongs.wellFormed (belongs : ty.Belongs before) :
    ty.WellFormed before :=
  (wellFormed_iff_everywhere before ty).mpr
    (belongs.imp fun _ proper => ⟨proper.declared, proper.complete⟩)

end Ty

namespace Registry

/-- The registries that calls lead to when every closed type belongs to the
registry to which it is handed. -/
inductive Grown : Registry → Prop
  | empty : Grown empty
  | apply {registry : Registry} (change : Change) (grown : Grown registry)
      (closed : change.AllClosed (Ty.Belongs registry.catalog)) :
      Grown (registry.apply change)

theorem grown_run {changes : List Change}
    (closed : ∀ change ∈ changes, ∀ property, change.AllClosed property) :
    (run changes).Grown :=
  run_induction .empty fun _ change member grown =>
    .apply change grown (closed change member _)

variable {registry : Registry}

theorem Grown.reachable (grown : registry.Grown) : registry.Reachable := by
  induction grown with
  | empty => exact .empty
  | apply change _ closed ih =>
      refine .apply change ih (Change.closedIn_iff.mpr ?_)
      exact Change.AllClosed.imp (fun _ => Ty.Belongs.wellFormed) closed

theorem Grown.parents_belong (grown : registry.Grown) :
    ∀ id, ∀ parent ∈ registry.catalog.parents id,
      parent.term.AllClosed (Ty.Belongs registry.catalog) := by
  induction grown with
  | empty => exact Catalog.allClosed_empty _ _
  | @apply registry change _ closed ih =>
      exact allClosed_apply
        (fun _ => .of_extends (extends_apply registry change)) ih closed

end Registry

namespace Collections

theorem grown : registry.Grown := by
  obtain ⟨changes, same, closed⟩ := exists_changes
  rw [same]
  exact Registry.grown_run closed

theorem string_belongs : string.Belongs registry.catalog :=
  .mk ⟨rfl, rfl, rfl⟩ fun _ member => nomatch member

theorem list_belongs {element : Option Ty}
    (inner : ∀ ty ∈ element, ty.Belongs registry.catalog) :
    (list element).Belongs registry.catalog := by
  refine .mk ⟨rfl, rfl, rfl⟩ fun ty member => inner ty ?_
  simpa [list, eq_comm] using member

theorem map_belongs {key value : Option Ty}
    (inner : ∀ ty ∈ key, ty.Belongs registry.catalog)
    (innerToo : ∀ ty ∈ value, ty.Belongs registry.catalog) :
    (map key value).Belongs registry.catalog := by
  refine .mk ⟨rfl, rfl, rfl⟩ fun ty member => ?_
  have either : some ty = key ∨ some ty = value := by simpa [map] using member
  rcases either with first | second
  · exact inner ty first.symm
  · exact innerToo ty second.symm

end Collections

end NominalTypes
