import NominalTypes.Proofs.Hierarchy.View
import NominalTypes.Proofs.Inference.Positions

namespace NominalTypes.Catalog

/-! Inference as the solution of what the declared view of the ancestor and the
known type say. -/

variable {catalog : Catalog}

/-- What matching the view of an ancestor along the steps with the
known one finds. -/
def viewFindings (catalog : Catalog) (known : Ty) (target : TypeId)
    (steps : List Step) : List Finding :=
  Pattern.findingsAll catalog (catalog.params target) known.name
    known.slots.length 0 (catalog.viewPatterns target steps) known.slots

theorem infer_eq_foldlM {known : Ty} {target : TypeId} {steps : List Step}
    (path : catalog.path target known.id = some steps)
    (declared : catalog.contains target = true) :
    catalog.infer known target = (do
      let slots ← (catalog.viewFindings known target steps).foldlM
        (Solution.add ⟨catalog.name target, catalog.params target⟩)
        (List.replicate (catalog.arity target) none)
      return ⟨target, catalog.name target, slots, none⟩) := by
  simp only [infer, declared, path, Bool.not_true, Bool.false_eq_true, if_false,
    Pattern.matchAll_eq_foldlM]
  rfl

/-- Inference succeeds when the findings can be added one by one, and the result
holds what they add up to. -/
theorem infer_eq_ok_iff {known : Ty} {target : TypeId} {steps : List Step}
    (path : catalog.path target known.id = some steps)
    (declared : catalog.contains target = true) (result : Ty) :
    catalog.infer known target = .ok result ↔
      ∃ solution, (catalog.viewFindings known target steps).foldlM
          (Solution.add ⟨catalog.name target, catalog.params target⟩)
          (List.replicate (catalog.arity target) none) = .ok solution ∧
        result = ⟨target, catalog.name target, solution, none⟩ := by
  rw [infer_eq_foldlM path declared, bind_eq_ok_iff]
  exact exists_congr fun _ => and_congr_right fun _ => by
    simp [pure, Except.pure, eq_comm (a := result)]

theorem infer_eq_error_iff {known : Ty} {target : TypeId} {steps : List Step}
    (path : catalog.path target known.id = some steps)
    (declared : catalog.contains target = true) (error : TypeError) :
    catalog.infer known target = .error error ↔
      (catalog.viewFindings known target steps).foldlM
        (Solution.add ⟨catalog.name target, catalog.params target⟩)
        (List.replicate (catalog.arity target) none) = .error error := by
  rw [infer_eq_foldlM path declared]
  cases (catalog.viewFindings known target steps).foldlM
      (Solution.add ⟨catalog.name target, catalog.params target⟩)
      (List.replicate (catalog.arity target) none) with
  | ok solution => simp [bind, Except.bind, pure, Except.pure]
  | error first => simp [bind, Except.bind]

theorem path_of_infer_eq_ok {known : Ty} {target : TypeId} {result : Ty}
    (inferred : catalog.infer known target = .ok result) :
    catalog.contains target = true ∧
      ∃ steps, catalog.path target known.id = some steps := by
  rw [infer] at inferred
  cases declared : catalog.contains target with
  | false =>
      simp [declared, bind, Except.bind, throw, throwThe,
        MonadExceptOf.throw] at inferred
  | true =>
      cases path : catalog.path target known.id with
      | none =>
          simp [declared, path, throw, throwThe,
            MonadExceptOf.throw] at inferred
      | some steps => exact ⟨rfl, steps, rfl⟩

section Chain

variable {target : TypeId} {known : Ty} {steps : List Step}
  (sound : catalog.Sound) (chain : catalog.Chain target steps known.id)

include sound chain

theorem viewPatterns_eq_map :
    catalog.viewPatterns target steps =
      (composeArgs (catalog.ownParams target) steps).map
        (Term.evaluate catalog (Pattern.vars (catalog.arity target))) :=
  slotsAlong_eq_map sound chain (by simp)

theorem slotsAlong_eq_map_fill {solution : Solution}
    (complete : solution.length = catalog.arity target) :
    catalog.slotsAlong solution steps =
      (catalog.viewPatterns target steps).map
        (Pattern.fill catalog solution) := by
  rw [slotsAlong_eq_map sound chain complete, viewPatterns_eq_map sound chain,
    List.map_map]
  apply List.map_congr_left
  intro term _
  rw [Function.comp_apply, Pattern.fill_evaluate,
    Pattern.fill_vars catalog complete]

/-- The view of a type of the target agrees with the known type exactly when its
slots admit all the findings. -/
theorem view_agrees_iff {candidate view : Ty}
    (complete : candidate.slots.length = catalog.arity target)
    (ids : view.id = known.id)
    (slots : view.slots = catalog.slotsAlong candidate.slots steps) :
    view.Agrees known ↔
      ∀ finding ∈ catalog.viewFindings known target steps,
        finding.AdmittedBy candidate.slots := by
  have filled := slotsAlong_eq_map_fill sound chain complete
  rw [Ty.agrees_iff, and_iff_right ids]
  simp only [viewFindings, Pattern.mem_findingsAll_iff]
  constructor
  · rintro each finding ⟨place, pattern, other, left, bound, member⟩
    refine (Pattern.fill_agrees_iff _).mp
      (fun value content => ?_) finding member
    refine each place value other (Ty.slot?_eq_some_iff.mpr ?_)
      (Ty.slot?_eq_some_iff.mpr bound)
    rw [slots, filled, List.getElem?_map, left, Option.map_some, content]
  · intro admitted place inner other left right
    have left := Ty.slot?_eq_some_iff.mp left
    rw [slots, filled, List.getElem?_map, Option.map_eq_some_iff] at left
    obtain ⟨pattern, found, content⟩ := left
    have right := Ty.slot?_eq_some_iff.mp right
    exact (Pattern.fill_agrees_iff _).mpr
      (fun finding member =>
        admitted finding ⟨place, pattern, other, found, right, member⟩)
      inner content

/-- Without conflicts, a parameter of the target is equated with exactly the
known types that stand where the parameter stands in the declared view. -/
theorem equation_mem_viewFindings_iff
    (noConflict : ∀ error,
      Finding.conflict error ∉ catalog.viewFindings known target steps)
    (index : Nat) (found : Ty) :
    Finding.equation index found ∈ catalog.viewFindings known target steps ↔
      ∃ place, (catalog.declaredView target known.id steps).at? place =
          some (.slot index) ∧
        known.at? place = some found := by
  obtain ⟨_, fitting⟩ :=
    composeArgs_wellFormed sound chain (length_ownParams target)
      (ownParams_wellFormed target)
  rw [viewFindings, viewPatterns_eq_map sound chain] at noConflict ⊢
  exact Term.mem_findingsAll_evaluate_iff
    (fun arg member => Term.equationsByPosition (fitting arg member)) known.id
    noConflict index
    found

theorem inRange_viewFindings
    (noConflict : ∀ error,
      Finding.conflict error ∉ catalog.viewFindings known target steps) :
    Solution.InRange (catalog.arity target)
      (catalog.viewFindings known target steps) := by
  intro index found member
  obtain ⟨_, stands, _⟩ :=
    (equation_mem_viewFindings_iff sound chain noConflict index found).mp member
  exact lt_arity_of_at?_declaredView sound chain stands

end Chain

/-- Wherever a parameter of the target stands in the declared view, the known
type holds the same type, if it holds any there. -/
def Uniform (catalog : Catalog) (known : Ty) (target : TypeId)
    (steps : List Step) : Prop :=
  ∀ index position other first second,
    (catalog.declaredView target known.id steps).at? position =
      some (.slot index) →
    known.at? position = some first →
    (catalog.declaredView target known.id steps).at? other =
      some (.slot index) →
    known.at? other = some second → (first == second) = true

/-- What the known type says of an inferred one. -/
structure Inferred (catalog : Catalog) (known : Ty) (target : TypeId)
    (steps : List Step) (result : Ty) : Prop where
  id : result.id = target
  complete : result.slots.length = catalog.arity target
  noConflict : ∀ error,
    Finding.conflict error ∉ catalog.viewFindings known target steps
  satisfies : ∀ index position found,
    (catalog.declaredView target known.id steps).at? position =
      some (.slot index) →
    known.at? position = some found →
    ∃ value, result.slot? index = some value ∧ (value == found) = true
  fromKnown : ∀ index value, result.slot? index = some value →
    ∃ position, (catalog.declaredView target known.id steps).at? position =
        some (.slot index) ∧
      known.at? position = some value

variable {known result : Ty} {target : TypeId} {steps : List Step}

theorem inferred_of_infer (sound : catalog.Sound)
    (path : catalog.path target known.id = some steps)
    (inferred : catalog.infer known target = .ok result) :
    catalog.Inferred known target steps result := by
  have chain := path_chain path
  obtain ⟨solution, added, rfl⟩ :=
    (infer_eq_ok_iff path (path_of_infer_eq_ok inferred).1 result).mp inferred
  have noConflict := Solution.noConflict_of_foldlM added
  have solves := Solution.solves_of_foldlM
    (by simpa using inRange_viewFindings sound chain noConflict) added
  have equations := equation_mem_viewFindings_iff sound chain noConflict
  refine ⟨rfl, by simpa using solves.length, noConflict, ?_, ?_⟩
  · intro index position found stands nested
    exact solves.satisfies index found
      ((equations index found).mpr ⟨position, stands, nested⟩)
  · intro index value bound
    rcases solves.fromFindings index value bound with start | member
    · rw [Solution.value?_replicate_none] at start
      cases start
    · exact (equations index value).mp member

theorem Inferred.wellFormed
    (inferred : catalog.Inferred known target steps result)
    (declared : catalog.contains target = true)
    (known_wellFormed : known.WellFormed catalog) :
    result.WellFormed catalog := by
  refine .mk (inferred.id ▸ declared) (inferred.id ▸ inferred.complete) ?_
  intro inner member
  obtain ⟨index, bound⟩ := List.mem_iff_getElem?.mp member
  obtain ⟨position, _, found⟩ :=
    inferred.fromKnown index inner (Ty.slot?_eq_some_iff.mpr bound)
  exact known_wellFormed.at? found

theorem Inferred.view_agrees (sound : catalog.Sound)
    (inferred : catalog.Inferred known target steps result)
    (path : catalog.path target known.id = some steps) {view : Ty}
    (ids : view.id = known.id)
    (slots : view.slots = catalog.slotsAlong result.slots steps) :
    view.Agrees known := by
  have chain := path_chain path
  refine (view_agrees_iff sound chain inferred.complete ids slots).mpr ?_
  intro finding member
  cases finding with
  | conflict error => exact inferred.noConflict error member
  | equation index found =>
      intro value bound
      obtain ⟨position, stands, nested⟩ :=
        (equation_mem_viewFindings_iff sound chain inferred.noConflict index
          found).mp member
      obtain ⟨other, boundOther, same⟩ :=
        inferred.satisfies index position found stands nested
      cases bound.symm.trans boundOther
      exact Ty.agrees_of_beq same

/-- Inference succeeds exactly when nothing in the known type speaks against the
declared view, and every parameter is equated with one type only. -/
theorem exists_infer_eq_ok_iff (sound : catalog.Sound)
    (declared : catalog.contains target = true)
    (path : catalog.path target known.id = some steps) :
    (∃ result, catalog.infer known target = .ok result) ↔
      (∀ error, Finding.conflict error ∉ catalog.viewFindings known target steps) ∧
        catalog.Uniform known target steps := by
  constructor
  · rintro ⟨result, inferred⟩
    have inferred := inferred_of_infer sound path inferred
    refine ⟨inferred.noConflict, ?_⟩
    intro index position other first second left found right foundOther
    obtain ⟨value, bound, same⟩ :=
      inferred.satisfies index position first left found
    obtain ⟨again, boundAgain, sameOther⟩ :=
      inferred.satisfies index other second right foundOther
    cases bound.symm.trans boundAgain
    exact BEq.trans (BEq.symm same) sameOther
  · rintro ⟨noConflict, uniform⟩
    have equations :=
      equation_mem_viewFindings_iff sound (path_chain path) noConflict
    have consistent :
        Solution.Consistent (catalog.viewFindings known target steps)
          (List.replicate (catalog.arity target) none) := by
      refine ⟨noConflict, ?_, ?_⟩
      · intro index first second left right
        obtain ⟨position, stands, found⟩ := (equations index first).mp left
        obtain ⟨other, standsOther, foundOther⟩ :=
          (equations index second).mp right
        exact uniform index position other first second stands found
          standsOther foundOther
      · intro index value _ start
        rw [Solution.value?_replicate_none] at start
        cases start
    obtain ⟨solution, added⟩ := Solution.exists_foldlM_of_consistent
      ⟨catalog.name target, catalog.params target⟩ consistent
    exact ⟨_, (infer_eq_ok_iff path declared _).mpr ⟨solution, added, rfl⟩⟩

end NominalTypes.Catalog
