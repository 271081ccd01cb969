import NominalTypes.Proofs.Inference.Agreement

namespace NominalTypes

/-! Where the equations of a match come from. -/

open Pattern (vars)

theorem Pattern.evaluate_variable (catalog : Catalog) {arity index : Nat}
    (bound : index < arity) :
    (Term.slot index).evaluate catalog (vars arity) = .var index := by
  simp [vars, bound]

theorem Pattern.equation_not_mem_findings_closed {catalog : Catalog}
    {params : List String} {position : Position} {known : Ty} {index : Nat}
    {found : Ty} (ty : Ty) :
    Finding.equation index found ∉
      (Pattern.closed ty).findings catalog params position (some known) := by
  rw [Pattern.findings]
  simp

namespace Term

variable {catalog : Catalog} {arity : Nat} {params : List String}

theorem evaluate_apply_pattern (patterns : List Pattern) (id : TypeId)
    (args : List Term) :
    (apply id args).evaluate catalog patterns =
      Pattern.application catalog id (args.map (evaluate catalog patterns)) :=
  evaluate_apply catalog patterns id args

theorem isOpen_evaluate {term : Term}
    (wellFormed : term.WellFormed catalog arity) {position : List Nat}
    {index : Nat} (stands : term.at? position = some (.slot index)) :
    (term.evaluate catalog (vars arity)).isOpen = true := by
  induction wellFormed generalizing position with
  | slot bound => rw [Pattern.evaluate_variable catalog bound, Pattern.isOpen]
  | closed ty => cases position <;> cases stands
  | @apply id args _ _ _ ih =>
      cases position with
      | nil => cases stands
      | cons place position =>
          obtain ⟨arg, found, stands⟩ := at?_apply_cons.mp stands
          have member := List.mem_of_getElem? found
          have opened :
              (args.map (evaluate catalog (vars arity))).any Pattern.isOpen =
                  true :=
            List.any_eq_true.mpr ⟨_, List.mem_map_of_mem member,
              ih arg member stands⟩
          rw [evaluate_apply_pattern, Pattern.application, if_pos opened,
            Pattern.isOpen]

/-- The equations of a term with the known type are those at the positions
of its slots. -/
def EquationsByPosition (catalog : Catalog) (params : List String) (arity : Nat)
    (term : Term) : Prop :=
  ∀ (known : Ty) (position : Position),
    (∀ error, Finding.conflict error ∉
      (term.evaluate catalog (vars arity)).findings catalog params position
        (some known)) →
    ∀ index found, Finding.equation index found ∈
        (term.evaluate catalog (vars arity)).findings catalog params position
          (some known) ↔
      ∃ place, term.at? place = some (.slot index) ∧
        known.at? place = some found

theorem mem_findingsAll_evaluate_iff {args : List Term}
    (each : ∀ arg ∈ args, EquationsByPosition catalog params arity arg)
    (id : TypeId) {known : Ty} {owner : String} {count start : Nat}
    (noConflict : ∀ error, Finding.conflict error ∉
      Pattern.findingsAll catalog params owner count start
        (args.map (evaluate catalog (vars arity))) known.slots)
    (index : Nat) (found : Ty) :
    Finding.equation index found ∈
        Pattern.findingsAll catalog params owner count start
          (args.map (evaluate catalog (vars arity))) known.slots ↔
      ∃ place, (apply id args).at? place = some (.slot index) ∧
        known.at? place = some found := by
  have noConflictAt : ∀ (place : Nat) (arg : Term) (other : Ty),
      args[place]? = some arg →
      known.slots[place]? = some (some other) →
      ∀ error, Finding.conflict error ∉
        (arg.evaluate catalog (vars arity)).findings catalog params
          ⟨owner, start + place, count⟩ (some other) := by
    intro place arg other located bound error member
    refine noConflict error
      (Pattern.mem_findingsAll_iff.mpr ⟨place, _, other, ?_, bound, member⟩)
    rw [List.getElem?_map, located, Option.map_some]
  rw [Pattern.mem_findingsAll_iff]
  constructor
  · rintro ⟨place, pattern, other, left, bound, member⟩
    rw [List.getElem?_map, Option.map_eq_some_iff] at left
    obtain ⟨arg, located, rfl⟩ := left
    obtain ⟨rest, stands, nested⟩ :=
      (each arg (List.mem_of_getElem? located) other _
        (noConflictAt place arg other located bound) index found).mp member
    exact ⟨place :: rest, at?_apply_cons.mpr ⟨arg, located, stands⟩,
      Ty.at?_cons_eq_some_iff.mpr ⟨other, Ty.slot?_eq_some_iff.mpr bound, nested⟩⟩
  · rintro ⟨position, stands, nested⟩
    cases position with
    | nil => cases stands
    | cons place rest =>
        obtain ⟨arg, located, stands⟩ := at?_apply_cons.mp stands
        obtain ⟨other, bound, nested⟩ := Ty.at?_cons_eq_some_iff.mp nested
        have bound := Ty.slot?_eq_some_iff.mp bound
        refine ⟨place, _, other, ?_, bound,
          (each arg (List.mem_of_getElem? located) other _
            (noConflictAt place arg other located bound) index found).mpr
              ⟨rest, stands, nested⟩⟩
        rw [List.getElem?_map, located, Option.map_some]

/-- Without conflicts, a parameter is equated with exactly the known types that
stand where the parameter stands. -/
theorem equationsByPosition {term : Term}
    (wellFormed : term.WellFormed catalog arity) :
    EquationsByPosition catalog params arity term := by
  induction wellFormed with
  | @slot place bound =>
      intro known position _ index found
      rw [Pattern.evaluate_variable catalog bound, Pattern.findings,
        List.mem_singleton]
      constructor
      · intro equality
        cases equality
        exact ⟨[], rfl, rfl⟩
      · rintro ⟨position, stands, nested⟩
        cases position with
        | nil =>
            cases stands
            cases nested
            rfl
        | cons _ _ => cases stands
  | closed ty =>
      intro known position _ index found
      constructor
      · intro member
        exact absurd member (Pattern.equation_not_mem_findings_closed ty)
      · rintro ⟨position, stands, _⟩
        cases position <;> cases stands
  | @apply id args declared complete fitting ih =>
      intro known position noConflict index found
      have opened : ∀ place, (apply id args).at? place = some (slot index) →
          ((apply id args).evaluate catalog (vars arity)).isOpen = true :=
        fun _ => isOpen_evaluate (.apply declared complete fitting)
      rw [evaluate_apply_pattern, Pattern.application] at noConflict opened ⊢
      split at noConflict
      · rename_i anyOpen
        rw [if_pos anyOpen]
        rw [Pattern.findings] at noConflict ⊢
        by_cases same : id = known.id
        · rw [if_pos same] at noConflict ⊢
          exact mem_findingsAll_evaluate_iff ih id noConflict index found
        · rw [if_neg same] at noConflict
          exact absurd List.mem_cons_self (noConflict _)
      · -- A closed type has no equations, and no slot stands in a term
        -- that becomes one.
        rename_i noneOpen
        rw [if_neg noneOpen] at opened ⊢
        constructor
        · intro member
          exact absurd member (Pattern.equation_not_mem_findings_closed _)
        · rintro ⟨place, stands, _⟩
          cases opened place stands

end Term

end NominalTypes
