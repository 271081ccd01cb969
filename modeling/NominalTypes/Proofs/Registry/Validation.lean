import NominalTypes.Proofs.Hierarchy.Path
import NominalTypes.Proofs.Term.WellFormed
import NominalTypes.Registry

namespace NominalTypes

/-! When a registry accepts a parent. -/

theorem bind_eq_ok_iff {ε α β : Type} {first : Except ε α}
    {next : α → Except ε β} {result : β} :
    (first >>= next) = .ok result ↔
      ∃ value, first = .ok value ∧ next value = .ok result := by
  cases first with
  | error error => simp [bind, Except.bind]
  | ok value => simp [bind, Except.bind]

theorem check_bind_eq_ok_iff {ε β : Type} {check : Except ε Unit}
    {next : Unit → Except ε β} {result : β} :
    (check >>= next) = .ok result ↔ check = .ok () ∧ next () = .ok result := by
  rw [bind_eq_ok_iff]
  constructor
  · rintro ⟨⟨⟩, passed, rest⟩
    exact ⟨passed, rest⟩
  · rintro ⟨passed, rest⟩
    exact ⟨(), passed, rest⟩

theorem mapError_eq_ok_iff {ε φ α : Type} {outcome : Except ε α}
    {convert : ε → φ} {result : α} :
    outcome.mapError convert = .ok result ↔ outcome = .ok result := by
  cases outcome <;> simp [Except.mapError]

namespace Term

variable (catalog : Catalog) (owner : TypeId)

theorem checkHead_eq_ok_iff (target : TypeId) (found : Nat) :
    checkHead catalog target found = .ok () ↔
      catalog.contains target = true ∧ found = catalog.arity target := by
  rw [checkHead]
  split
  · simp_all
  · split <;> simp_all

theorem checkAll_eq_ok_iff (args : List Term) :
    checkAll catalog owner args = .ok () ↔
      ∀ arg ∈ args, arg.check catalog owner = .ok () := by
  induction args with
  | nil => simp [checkAll]
  | cons arg rest ih => simp [checkAll, check_bind_eq_ok_iff, ih]

theorem check_eq_ok_iff (term : Term) :
    term.check catalog owner = .ok () ↔
      term.WellFormed catalog (catalog.arity owner) := by
  induction term with
  | slot index =>
      rw [check, wellFormed_slot_iff]
      split <;> simp_all
  | closed ty => exact ⟨fun _ => .closed ty, fun _ => rfl⟩
  | apply id args ih =>
      rw [check, wellFormed_apply_iff, check_bind_eq_ok_iff,
        checkHead_eq_ok_iff, checkAll_eq_ok_iff, and_assoc]
      exact and_congr_right fun _ => and_congr_right fun _ => forall₂_congr ih

end Term

namespace Catalog

theorem checkParent_eq_ok_iff (catalog : Catalog) (owner : TypeId)
    (parent : Parent) :
    catalog.checkParent owner parent = .ok () ↔
      catalog.contains owner = true ∧
        parent.term.WellFormed catalog (catalog.arity owner) ∧
        ¬ catalog.DerivesFrom parent.id owner := by
  rw [checkParent]
  cases contained : catalog.contains owner with
  | false => simp [bind, Except.bind, throw, throwThe, MonadExceptOf.throw]
  | true =>
      simp only [Bool.not_true, Bool.false_eq_true, if_false,
        check_bind_eq_ok_iff, Term.check_eq_ok_iff, ← derives_iff,
        Parent.term, true_and]
      refine and_congr_right fun _ => ?_
      split <;> simp_all [throw, throwThe, MonadExceptOf.throw, pure,
        Except.pure]

end Catalog

namespace Registry

variable (registry : Registry) (owner : TypeId) (parent : Parent)
  (after : Registry)

theorem setSuperclass_eq_ok_iff :
    registry.setSuperclass owner parent = .ok after ↔
      registry.catalog.checkParent owner parent = .ok () ∧
        registry.catalog.kind parent.id = .classType ∧
        registry.catalog.superclass owner = none ∧
        after = registry.advance
          (registry.catalog.putSuperclass owner parent) := by
  rw [setSuperclass, check_bind_eq_ok_iff]
  refine and_congr_right fun _ => ?_
  cases kind : registry.catalog.kind parent.id with
  | interfaceType =>
      simp [bind, Except.bind, throw, throwThe, MonadExceptOf.throw]
  | classType =>
      cases registry.catalog.superclass owner with
      | some existing => simp [throw, throwThe, MonadExceptOf.throw]
      | none => simp [pure, Except.pure, eq_comm]

theorem addInterface_eq_ok_iff :
    registry.addInterface owner parent = .ok after ↔
      registry.catalog.checkParent owner parent = .ok () ∧
        after = registry.advance
          (registry.catalog.appendInterface owner parent) := by
  rw [addInterface, check_bind_eq_ok_iff]
  simp [pure, Except.pure, eq_comm]

end Registry

end NominalTypes
