import NominalTypes.Proofs.Inference.Filling

namespace NominalTypes

/-! Findings and agreement with what is known. -/

theorem Ty.agrees_iff_forall_not_mem_conflicts {declared known : Ty}
    (position : Position) :
    declared.Agrees known ↔
      ∀ error, error ∉ declared.conflicts position known := by
  induction declared generalizing known position with
  | mk id name slots handle ih =>
      rw [agrees_iff, conflicts]
      by_cases same : id = known.id
      · simp only [same, if_true, true_and, mem_slotsConflicts_iff]
        constructor
        · rintro each error ⟨place, inner, other, left, right, member⟩
          exact (ih inner (List.mem_of_getElem? left) _).mp
            (each place inner other (slot?_eq_some_iff.mpr left)
              (slot?_eq_some_iff.mpr right))
            error member
        · intro none place inner other left right
          have left := slot?_eq_some_iff.mp left
          exact (ih inner (List.mem_of_getElem? left) _).mpr fun error member =>
            none error ⟨place, inner, other, left,
              slot?_eq_some_iff.mp right, member⟩
      · simp [same]

instance (declared known : Ty) : Decidable (declared.Agrees known) :=
  decidable_of_iff ((declared.conflicts ⟨"", 0, 0⟩ known).isEmpty = true) (by
    rw [Ty.agrees_iff_forall_not_mem_conflicts, List.isEmpty_iff,
      List.eq_nil_iff_forall_not_mem])

/-- A conflict is never admitted.  An equation is admitted if what the solution
holds for the parameter, if anything, agrees with the known type. -/
def Finding.AdmittedBy (solution : Solution) : Finding → Prop
  | .conflict _ => False
  | .equation index known =>
      ∀ value, solution.value? index = some value → value.Agrees known

namespace Pattern

variable {catalog : Catalog} {params : List String} {solution : Solution}

theorem agrees_apply_iff {id : TypeId} {args : List Pattern} {known : Ty} :
    (∀ value, (apply id args).fill catalog solution = some value →
        value.Agrees known) ↔
      id = known.id ∧ ∀ (place : Nat) (arg : Pattern) (other : Ty),
        args[place]? = some arg →
        known.slots[place]? = some (some other) →
          ∀ value, arg.fill catalog solution = some value →
            value.Agrees other := by
  simp only [fill_apply, Option.some.injEq, forall_eq']
  rw [Ty.agrees_iff]
  refine and_congr_right fun _ => ?_
  constructor
  · intro each place arg other found bound value filled
    refine each place value other (Ty.slot?_eq_some_iff.mpr ?_)
      (Ty.slot?_eq_some_iff.mpr bound)
    rw [List.getElem?_map, found, Option.map_some, filled]
  · intro each place inner other left right
    have left := Ty.slot?_eq_some_iff.mp left
    rw [List.getElem?_map, Option.map_eq_some_iff] at left
    obtain ⟨arg, found, filled⟩ := left
    exact each place arg other found
      (Ty.slot?_eq_some_iff.mp right) inner filled

/-- A filled pattern agrees with the known type exactly when the solution admits
everything that matching finds. -/
theorem fill_agrees_iff {pattern : Pattern} {known : Ty} (position : Position) :
    (∀ value, pattern.fill catalog solution = some value → value.Agrees known) ↔
      ∀ finding ∈ pattern.findings catalog params position (some known),
        finding.AdmittedBy solution := by
  induction pattern generalizing known position with
  | var index => simp [findings, Finding.AdmittedBy]
  | unbound => simp [findings]
  | closed ty =>
      simp [findings, Finding.AdmittedBy,
        Ty.agrees_iff_forall_not_mem_conflicts position]
  | apply id args ih =>
      rw [agrees_apply_iff, findings]
      by_cases same : id = known.id
      · simp only [same, if_true, true_and, mem_findingsAll_iff]
        constructor
        · rintro each finding ⟨place, arg, other, found, bound, member⟩
          exact (ih arg (List.mem_of_getElem? found) _).mp
            (each place arg other found bound) finding member
        · intro all place arg other found bound
          exact (ih arg (List.mem_of_getElem? found) _).mpr
            fun finding member =>
              all finding ⟨place, arg, other, found, bound, member⟩
      · simp [same, Finding.AdmittedBy]

end Pattern

end NominalTypes
