import NominalTypes.Proofs.Inference.Outcome

namespace NominalTypes

/-! Inference and views undo each other: what is inferred from the view of a
type is the type, as far as the view shows it, and the view of what is inferred
from a type is the type, as far as both are bound. -/

namespace Catalog

variable {catalog : Catalog} {ty view : Ty} {steps : List Step}

/-- A view is consistent with the declared view: nothing speaks against it, and
every parameter is found equal to itself wherever it stands. -/
theorem exists_infer_view (sound : catalog.Sound)
    (wellFormed : ty.WellFormed catalog)
    (path : catalog.path ty.id view.id = some steps)
    (slots : view.slots = catalog.slotsAlong ty.slots steps) :
    ∃ result, catalog.infer view ty.id = .ok result := by
  have chain := path_chain path
  refine (exists_infer_eq_ok_iff sound wellFormed.declared path).mpr ⟨?_, ?_⟩
  · intro error
    have admitted :=
      (view_agrees_iff sound chain wellFormed.complete rfl slots).mp
        (.refl view)
    exact admitted (.conflict error)
  · intro index position other first second stands found standsOther foundOther
    rw [at?_view sound chain wellFormed.complete slots stands] at found
    rw [at?_view sound chain wellFormed.complete slots standsOther,
      found] at foundOther
    cases foundOther
    exact BEq.rfl

section Inferred

variable {result : Ty} (inferred : catalog.Inferred view ty.id steps result)
  (shown : ∀ position index,
    (catalog.declaredView ty.id view.id steps).at? position =
        some (.slot index) →
      view.at? position = ty.slot? index)

include inferred shown

theorem Inferred.slot?_of_mentions {index : Nat}
    (mentioned : (catalog.declaredView ty.id view.id steps).Mentions index) :
    result.slot? index = ty.slot? index := by
  obtain ⟨position, stands⟩ := mentioned
  cases content : ty.slot? index with
  | some inner =>
      obtain ⟨value, bound, _⟩ := inferred.satisfies index position inner stands
        ((shown position index stands).trans content)
      obtain ⟨other, standsOther, found⟩ := inferred.fromKnown index value bound
      rw [bound, ← found, shown other index standsOther, content]
  | none =>
      cases bound : result.slot? index with
      | none => rfl
      | some value =>
          obtain ⟨other, standsOther, found⟩ :=
            inferred.fromKnown index value bound
          rw [shown other index standsOther, content] at found
          cases found

omit shown in
theorem Inferred.slot?_of_not_mentions {index : Nat}
    (unmentioned : ¬(catalog.declaredView ty.id view.id steps).Mentions index) :
    result.slot? index = none := by
  cases bound : result.slot? index with
  | none => rfl
  | some value =>
      obtain ⟨position, stands, _⟩ := inferred.fromKnown index value bound
      exact absurd ⟨position, stands⟩ unmentioned

theorem Inferred.beq_of_mentions (wellFormed : ty.WellFormed catalog)
    (mentioned : ∀ index inner, ty.slot? index = some inner →
      (catalog.declaredView ty.id view.id steps).Mentions index) :
    (result == ty) = true := by
  refine Ty.beq_of_slot?_eq inferred.id
    (inferred.complete.trans wellFormed.complete.symm) ?_
  intro index
  by_cases mentions : (catalog.declaredView ty.id view.id steps).Mentions index
  · exact inferred.slot?_of_mentions shown mentions
  · rw [inferred.slot?_of_not_mentions mentions]
    cases content : ty.slot? index with
    | none => rfl
    | some inner => exact absurd (mentioned index inner content) mentions

end Inferred

/-- The view of what is inferred from a type without unbound slots has none
either, unless they are declared. -/
theorem Inferred.view_isFullyBound (sound : catalog.Sound) {known result : Ty}
    {target : TypeId} (inferred : catalog.Inferred known target steps result)
    (path : catalog.path target known.id = some steps)
    (ids : view.id = known.id)
    (slots : view.slots = catalog.slotsAlong result.slots steps)
    (wellFormed : known.WellFormed catalog) (full : known.isFullyBound = true)
    (closed : ∀ step ∈ steps, ∀ arg ∈ step.parent.args,
      arg.AllClosed fun ty => ty.isFullyBound = true) :
    view.isFullyBound = true := by
  have chain := path_chain path
  have agreement := inferred.view_agrees sound path ids slots
  rw [slotsAlong_eq_map sound chain inferred.complete] at slots
  have evaluated :
      (catalog.declaredView target known.id steps).evaluate catalog result.slots =
        some ⟨known.id, catalog.name known.id, view.slots, none⟩ := by
    rw [slots]
    exact Term.evaluate_apply_type _ _ _
  obtain ⟨value, found, valueFull⟩ :=
    Term.exists_isFullyBound_evaluate result.slots
      (declaredView_wellFormed sound chain wellFormed.declared)
      (.apply (composeArgs_allClosed closed (ownParams_allClosed _ target)))
        wellFormed full
      (by
        intro value found
        cases evaluated.symm.trans found
        exact Ty.agrees_iff.mpr ⟨rfl, (Ty.agrees_iff.mp agreement).2⟩)
      (by
        intro position index found stands nested
        obtain ⟨value, bound, same⟩ :=
          inferred.satisfies index position found stands nested
        obtain ⟨_, _, origin⟩ := inferred.fromKnown index value bound
        exact ⟨value, bound, Ty.isFullyBound_at? full origin⟩)
  cases evaluated.symm.trans found
  have each := (Ty.isFullyBound_iff _).mp valueFull
  exact (Ty.isFullyBound_iff view).mpr each

end Catalog

namespace Registry

/-- A type is viewed as itself or an ancestor, and inferred from this view
again.  This succeeds.  The parameters that the declared view mentions get back
their slots, bound or not, and the others stay unbound.  So a type comes back
whole if the view mentions all that is bound in it. -/
theorem infer_viewAs {registry : Registry}
    (reachable : registry.Reachable) {ty : Ty}
    (wellFormed : ty.WellFormed registry.catalog) {ancestor : TypeId}
    (derived : registry.catalog.DerivesFrom ty.id ancestor) :
    ∃ steps view result, registry.catalog.path ty.id ancestor = some steps ∧
      registry.catalog.viewAs ty ancestor = some view ∧
      registry.catalog.infer view ty.id = .ok result ∧
      result.id = ty.id ∧ result.slots.length = registry.catalog.arity ty.id ∧
      (∀ index,
        (registry.catalog.declaredView ty.id ancestor steps).Mentions index →
        result.slot? index = ty.slot? index) ∧
      (∀ index,
        ¬(registry.catalog.declaredView ty.id ancestor steps).Mentions index →
        result.slot? index = none) ∧
      ((∀ index inner, ty.slot? index = some inner →
        (registry.catalog.declaredView ty.id ancestor steps).Mentions index) →
        (result == ty) = true) := by
  have sound := reachable.sound
  obtain ⟨steps, path⟩ := Catalog.exists_path derived
  obtain ⟨view, viewed, rfl, slots⟩ := Catalog.exists_viewAs path
  obtain ⟨result, found⟩ :=
    Catalog.exists_infer_view sound wellFormed path slots
  have inferred := Catalog.inferred_of_infer sound path found
  have shown : ∀ position index,
      (registry.catalog.declaredView ty.id view.id steps).at? position =
          some (.slot index) →
        view.at? position = ty.slot? index :=
    fun _ _ =>
      Catalog.at?_view sound (Catalog.path_chain path) wellFormed.complete slots
  exact ⟨steps, view, result, path, viewed, found, inferred.id,
    inferred.complete, fun _ => inferred.slot?_of_mentions shown,
    fun _ => inferred.slot?_of_not_mentions,
    inferred.beq_of_mentions shown wellFormed⟩

open Collections in
/-- A grid shows its rows, which come back with their unbound slot, and not its
columns, which are lost. -/
theorem infer_viewAs_grid :
    ∃ view result,
      Collections.registry.catalog.viewAs (grid (list none) string) 2 = some view ∧
      Collections.registry.catalog.infer view 4 = .ok result ∧
      result.slot? 0 = some (list none) ∧ result.slot? 1 = none := by
  obtain ⟨steps, view, result, path, viewed, inferred, _, _, mentioned,
      unmentioned, _⟩ :=
    @infer_viewAs Collections.registry Collections.reachable
      (grid (list none) string) (by decide) 2 (by decide)
  obtain rfl : [⟨.interface 0, ⟨2, [.slot 0, .apply 1 [.slot 0]]⟩⟩] = steps :=
    Option.some.inj path
  exact ⟨view, result, viewed, inferred, mentioned 0 (by decide),
    unmentioned 1 (by decide)⟩

/-- A type is inferred from a known one, and viewed as the known one again.
Whatever is inferred is nested in the known type.  The view agrees with the
known type wherever both are bound, and it is the known type if nothing is
unbound in this and in the arguments declared on the way. -/
theorem viewAs_infer {registry : Registry} (reachable : registry.Reachable)
    {known : Ty} (wellFormed : known.WellFormed registry.catalog)
    {target : TypeId} {result : Ty}
    (inferred : registry.catalog.infer known target = .ok result) :
    result.id = target ∧ result.slots.length = registry.catalog.arity target ∧
      (∀ index value, result.slot? index = some value →
        ∃ place position, known.at? (place :: position) = some value) ∧
      ∃ steps view, registry.catalog.path target known.id = some steps ∧
        registry.catalog.viewAs result known.id = some view ∧
        view.Agrees known ∧
        (known.isFullyBound = true →
          (∀ step ∈ steps, ∀ arg ∈ step.parent.args,
            arg.AllClosed fun ty => ty.isFullyBound = true) →
              (view == known) = true) := by
  have sound := reachable.sound
  obtain ⟨declared, steps, path⟩ := Catalog.path_of_infer_eq_ok inferred
  have found := Catalog.inferred_of_infer sound path inferred
  obtain ⟨view, viewed, ids, slots⟩ :=
    Catalog.exists_viewAs (found.id.symm ▸ path)
  have agreement := found.view_agrees sound path ids slots
  refine ⟨found.id, found.complete, ?_, steps, view, path, viewed,
    agreement, ?_⟩
  · intro index value bound
    obtain ⟨position, stands, nested⟩ := found.fromKnown index value bound
    cases position with
    | nil => cases stands
    | cons place position => exact ⟨place, position, nested⟩
  · intro full closed
    refine Ty.beq_of_agrees agreement ?_ wellFormed
      (found.view_isFullyBound sound path ids slots wellFormed full closed) full
    rw [Catalog.viewAs_of_path (found.id.symm ▸ path)] at viewed
    exact Catalog.climb_wellFormed sound reachable.closedSound
      (Catalog.path_chain path) found.id
      (found.wellFormed declared wellFormed) viewed

open Collections in
/-- A map of strings to lists of strings is the view of the grid that is
inferred from it. -/
theorem viewAs_infer_grid :
    ∃ result view,
      Collections.registry.catalog.infer (map string (list string)) 4 =
        .ok result ∧
      Collections.registry.catalog.viewAs result 2 = some view ∧
      (view == map string (list string)) = true := by
  obtain ⟨_, _, _, steps, view, path, viewed, _, same⟩ :=
    @viewAs_infer Collections.registry Collections.reachable
      (map string (list string)) (by decide) 4 (grid string none) rfl
  obtain rfl : [⟨.interface 0, ⟨2, [.slot 0, .apply 1 [.slot 0]]⟩⟩] = steps :=
    Option.some.inj path
  refine ⟨_, view, rfl, viewed, same (by decide) ?_⟩
  simp [Term.AllClosed.slot, Term.AllClosed.apply]

end Registry

end NominalTypes
