import Mathlib.Data.List.TFAE
import NominalTypes.Proofs.Hierarchy.Ancestors

namespace NominalTypes

/-! Inference from types of which nothing is known. -/

theorem Pattern.matchAll_replicate_none (catalog : Catalog) (target : Target)
    (owner : String) (count index length : Nat) (solution : Solution)
    (patterns : List Pattern) :
    matchAll catalog target owner count index solution patterns
        (List.replicate length none) =
      .ok solution := by
  induction patterns generalizing index length with
  | nil => rw [matchAll]; simp
  | cons pattern patterns ih =>
      cases length with
      | zero => rfl
      | succ length =>
          rw [List.replicate_succ, matchAll, matchWith]
          exact ih (index + 1) length

namespace Catalog

/-- The type with the identity in which all slots are unbound. -/
def raw (catalog : Catalog) (id : TypeId) : Ty :=
  ⟨id, catalog.name id, List.replicate (catalog.arity id) none, none⟩

theorem infer_raw {catalog : Catalog} {target : TypeId}
    (declared : catalog.contains target = true) (ancestor : TypeId) :
    catalog.infer (catalog.raw ancestor) target =
      if catalog.derives target ancestor then .ok (catalog.raw target)
      else .error
        (.notADescendant (catalog.name target) (catalog.name ancestor)) := by
  rw [infer, derives]
  cases found : catalog.path target ancestor with
  | none => simp [declared, raw, found, throw, throwThe, MonadExceptOf.throw]
  | some steps =>
      simp [declared, raw, found, Pattern.matchAll_replicate_none, bind,
        Except.bind, pure, Except.pure]

/-- The questions whether a type has an ancestor with some identity have the
same answer, and the list of the ancestors shows each as the view that is found
by its identity, in the order of the paths. -/
theorem ancestors_agree {catalog : Catalog} {ty : Ty}
    (declared : catalog.contains ty.id = true) :
    (∀ ancestor,
      List.TFAE [catalog.derives ty.id ancestor = true,
        (catalog.viewAs ty ancestor).isSome = true,
        ancestor = ty.id ∨ ancestor ∈ (catalog.ancestors ty).map Ty.id,
        catalog.infer (catalog.raw ancestor) ty.id = .ok (catalog.raw ty.id),
        catalog.infer (catalog.raw ancestor) ty.id ≠
          .error (.notADescendant (catalog.name ty.id) (catalog.name ancestor))]) ∧
    (ty.id :: (catalog.ancestors ty).map Ty.id).Nodup ∧
    (∀ view ∈ catalog.ancestors ty, catalog.viewAs ty view.id = some view) ∧
    ∃ paths : List (List Step),
      (catalog.ancestors ty).map (fun view => catalog.path ty.id view.id) =
          paths.map some ∧
        paths.Pairwise Step.Earlier := by
  refine ⟨fun ancestor => ?_, ?_, fun _ => viewAs_of_mem_ancestors,
    paths_of_ancestors catalog ty⟩
  · tfae_have 1 ↔ 2 :=
      (derives_iff _ _).trans (isSome_viewAs_iff ty ancestor).symm
    tfae_have 1 ↔ 3 := by
      rw [derives_iff, mem_ids_ancestors_iff]
      by_cases self : ancestor = ty.id
      · subst self
        exact iff_of_true .refl (.inl rfl)
      · simp [self]
    tfae_have 1 ↔ 4 := by
      rw [infer_raw declared]
      split <;> simp_all
    tfae_have 1 ↔ 5 := by
      rw [infer_raw declared]
      split <;> simp_all
    tfae_finish
  · rw [ids_ancestors]
    exact nodup_ids_trails catalog ty.id

open Collections in
theorem ancestors_agree_grid :
    Collections.registry.catalog.ancestors (grid string (list none)) =
      [map string (list string)] ∧
    Collections.registry.catalog.viewAs (grid string (list none)) 2 =
      some (map string (list string)) ∧
    Collections.registry.catalog.infer (map none none) 4 =
      .ok (grid none none) := by
  have listed :
      Collections.registry.catalog.ancestors (grid string (list none)) =
        [map string (list string)] := rfl
  have derived : Collections.registry.catalog.derives 4 2 = true := by decide
  obtain ⟨same, _, views, _⟩ :=
    @ancestors_agree Collections.registry.catalog
      (grid string (list none)) (by decide)
  exact ⟨listed, views _ (listed ▸ List.mem_singleton_self _),
    ((same 2).out 0 3).mp derived⟩

end Catalog

end NominalTypes
