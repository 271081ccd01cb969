import NominalTypes.Proofs.Inference.Outcome

namespace NominalTypes

/-! When a type whose view agrees with a known one is enough for
inference to succeed. -/

namespace Catalog

section Candidate

variable {catalog : Catalog} (sound : catalog.Sound) {known candidate view : Ty}
  {steps : List Step} (path : catalog.path candidate.id known.id = some steps)
  (fits : candidate.WellFormed catalog)
  (slots : view.slots = catalog.slotsAlong candidate.slots steps)
  (agreement : view.Agrees known)

include sound path fits slots agreement

theorem agrees_at?_of_slot? {position : List Nat} {index : Nat}
    {inner found : Ty} (held : candidate.slot? index = some inner)
    (stands : (catalog.declaredView candidate.id known.id steps).at? position =
      some (.slot index))
    (nested : known.at? position = some found) : inner.Agrees found := by
  have shown : view.at? position = some inner :=
    (at?_view sound (path_chain path) fits.complete slots stands).trans held
  exact agreement.at? shown nested

theorem Inferred.agrees_candidate {result : Ty}
    (inferred : catalog.Inferred known candidate.id steps result) :
    result.Agrees candidate := by
  refine Ty.agrees_iff.mpr ⟨inferred.id, ?_⟩
  intro index value inner bound held
  obtain ⟨position, stands, nested⟩ := inferred.fromKnown index value bound
  exact (agrees_at?_of_slot? sound path fits slots agreement held stands
    nested).symm

/-- Where nothing is unbound, types that agree with the same slot of the
candidate are the same. -/
theorem uniform_of_isFullyBound (full : candidate.isFullyBound = true)
    (wellFormed : known.WellFormed catalog)
    (knownFull : known.isFullyBound = true) :
    catalog.Uniform known candidate.id steps := by
  intro index position other first second stands found standsOther foundOther
  have bound : index < candidate.slots.length :=
    fits.complete ▸ lt_arity_of_at?_declaredView sound (path_chain path) stands
  obtain ⟨inner, held, innerFull⟩ := Ty.exists_slot?_of_isFullyBound full bound
  have same : ∀ place value,
      (catalog.declaredView candidate.id known.id steps).at? place =
        some (.slot index) →
      known.at? place = some value → (inner == value) = true := by
    intro place value standsThere nested
    have agreeing :=
      agrees_at?_of_slot? sound path fits slots agreement held
        standsThere nested
    exact Ty.beq_of_agrees agreeing
      (fits.bound (Ty.mem_slots_of_slot? held))
      (wellFormed.at? nested) innerFull
      (Ty.isFullyBound_at? knownFull nested)
  exact BEq.trans (BEq.symm (same position first stands found))
    (same other second standsOther foundOther)

theorem exists_infer_iff_uniform (ids : view.id = known.id) :
    (∃ result, catalog.infer known candidate.id = .ok result) ↔
      catalog.Uniform known candidate.id steps := by
  rw [exists_infer_eq_ok_iff sound fits.declared path, and_iff_right_iff_imp]
  intro _ error
  have admitted :=
    (view_agrees_iff sound (path_chain path) fits.complete ids slots).mp agreement
  exact admitted (.conflict error)

end Candidate

end Catalog

namespace Registry

/-- Given a candidate without unbound slots whose view agrees with the known
type, inference succeeds exactly when the known type holds equal types wherever
one parameter stands, and what it finds agrees with the candidate.  The types
are equal if the known type has no unbound slots either.  Otherwise they may
differ in what is unbound, and inference is refused. -/
theorem infer_of_candidate {registry : Registry}
    (reachable : registry.Reachable) {known candidate view : Ty}
    (wellFormed : known.WellFormed registry.catalog)
    (fits : candidate.WellFormed registry.catalog)
    (full : candidate.isFullyBound = true)
    (viewed : registry.catalog.viewAs candidate known.id = some view)
    (agreement : view.Agrees known) :
    ∃ steps, registry.catalog.path candidate.id known.id = some steps ∧
      ((∃ result, registry.catalog.infer known candidate.id = .ok result) ↔
        registry.catalog.Uniform known candidate.id steps) ∧
      (known.isFullyBound = true →
        registry.catalog.Uniform known candidate.id steps) ∧
      ∀ result, registry.catalog.infer known candidate.id = .ok result →
        result.Agrees candidate := by
  have sound := reachable.sound
  obtain ⟨steps, path⟩ := Catalog.exists_path_of_viewAs viewed
  obtain ⟨again, viewedAgain, ids, slots⟩ := Catalog.exists_viewAs path
  cases viewed.symm.trans viewedAgain
  refine ⟨steps, path,
    Catalog.exists_infer_iff_uniform sound path fits slots agreement ids,
    Catalog.uniform_of_isFullyBound sound path fits slots agreement full
      wellFormed, ?_⟩
  intro result inferred
  have found := Catalog.inferred_of_infer sound path inferred
  exact found.agrees_candidate sound path fits slots agreement

open Collections in
/-- All that is known of the rows of a grid is that they are lists, in both of
the places where they stand. -/
theorem infer_of_candidate_grid :
    ∃ steps result, Collections.registry.catalog.path 4 2 = some steps ∧
      Collections.registry.catalog.infer (map (list none)
        (list (list none))) 4 = .ok result ∧
      Collections.registry.catalog.Uniform (map (list none)
        (list (list none))) 4 steps ∧
      result.Agrees (grid (list string) string) := by
  have inferred :
      Collections.registry.catalog.infer (map (list none) (list (list none))) 4 =
        .ok (grid (list none) none) := rfl
  obtain ⟨steps, path, succeeds, _, agrees⟩ :=
    @infer_of_candidate Collections.registry Collections.reachable
      (map (list none) (list (list none))) (grid (list string) string) _
      (by decide) (by decide) (by decide) rfl (by decide)
  exact ⟨steps, _, path, inferred, succeeds.mp ⟨_, inferred⟩, agrees _ inferred⟩

open Collections in
/-- A map of which it is not known what the lists in its keys are of is refused,
although its view as a twin would agree with it. -/
theorem infer_refuses_unbound_slot :
    ∃ view, Collections.registry.Reachable ∧
      (map (list none) (list string)).WellFormed Collections.registry.catalog ∧
      (twin (list string)).WellFormed Collections.registry.catalog ∧
      (twin (list string)).isFullyBound = true ∧
      Collections.registry.catalog.viewAs (twin (list string)) 2 = some view ∧
      view.Agrees (map (list none) (list string)) ∧
      Collections.registry.catalog.infer (map (list none) (list string)) 5 =
        .error (.parameterConflict "Twin" "T" "List<?>" "List<String>") :=
  ⟨_, Collections.reachable, by decide, by decide, by decide,
    rfl, by decide, rfl⟩

end Registry

end NominalTypes
