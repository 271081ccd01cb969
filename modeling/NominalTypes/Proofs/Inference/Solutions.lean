import NominalTypes.Proofs.Inference.Findings
import NominalTypes.Proofs.Ty.Sameness

namespace NominalTypes.Solution

/-! When findings have a solution, and what is known of it. -/

/-- What has been found for a parameter. -/
def value? (solution : Solution) (index : Nat) : Option Ty :=
  solution[index]?.join

theorem value?_set_self {solution : Solution} {index : Nat}
    (bound : index < solution.length) (known : Ty) :
    value? (solution.set index (some known)) index = some known := by
  simp [value?, bound]

theorem value?_set_of_ne (solution : Solution) {index other : Nat}
    (distinct : index ≠ other) (known : Ty) :
    value? (solution.set index (some known)) other = value? solution other := by
  simp [value?, distinct]

theorem of_value?_set {solution : Solution} {index place : Nat}
    {known value : Ty}
    (found : value? (solution.set index (some known)) place = some value) :
    value? solution place = some value ∨ place = index ∧ value = known := by
  by_cases equality : index = place
  · subst place
    by_cases bound : index < solution.length
    · rw [value?_set_self bound] at found
      exact .inr ⟨rfl, (Option.some.inj found).symm⟩
    · rw [List.set_eq_of_length_le (Nat.le_of_not_lt bound)] at found
      exact .inl found
  · rw [value?_set_of_ne solution equality] at found
    exact .inl found

@[simp] theorem value?_replicate_none (length index : Nat) :
    value? (List.replicate length none) index = none := by
  rw [value?, List.getElem?_replicate]
  split <;> rfl

variable {target : Target}

theorem bind_of_none {solution : Solution} {index : Nat}
    (unknown : value? solution index = none) (known : Ty) :
    solution.bind target index known =
      .ok (solution.set index (some known)) := by
  rw [value?] at unknown
  rw [bind, unknown]

theorem bind_of_beq {solution : Solution} {index : Nat} {first known : Ty}
    (present : value? solution index = some first)
    (same : (first == known) = true) :
    solution.bind target index known = .ok solution := by
  rw [value?] at present
  rw [bind, present]
  simp [same]

theorem bind_eq_ok_iff {solution after : Solution} {index : Nat} {known : Ty} :
    solution.bind target index known = .ok after ↔
      value? solution index = none ∧ after = solution.set index (some known) ∨
        ∃ first, value? solution index = some first ∧ (first == known) = true ∧
          after = solution := by
  rw [bind, value?]
  cases solution[index]?.join with
  | none => simp [eq_comm (a := after)]
  | some first =>
      by_cases same : (first == known) = true
      · simp [same, eq_comm (a := after)]
      · simp [same]

/-- How a solution differs from the one before, when all the findings have
been added to it. -/
structure Solves (findings : List Finding)
    (before after : Solution) : Prop where
  length : after.length = before.length
  noConflict : ∀ error, Finding.conflict error ∉ findings
  keeps : ∀ index value, value? before index = some value →
    value? after index = some value
  satisfies : ∀ index known, Finding.equation index known ∈ findings →
    ∃ value, value? after index = some value ∧ (value == known) = true
  fromFindings : ∀ index value, value? after index = some value →
    value? before index = some value ∨ Finding.equation index value ∈ findings

theorem Solves.nil (solution : Solution) : Solves [] solution solution where
  length := rfl
  noConflict _ member := nomatch member
  keeps _ _ found := found
  satisfies _ _ member := nomatch member
  fromFindings _ _ found := .inl found

theorem Solves.cons {index : Nat} {known : Ty} {rest : List Finding}
    {before middle after : Solution}
    (first : Solves [.equation index known] before middle)
    (others : Solves rest middle after) :
    Solves (.equation index known :: rest) before after where
  length := others.length.trans first.length
  noConflict error member := by
    rcases List.mem_cons.mp member with equality | member
    · cases equality
    · exact others.noConflict error member
  keeps place value found :=
    others.keeps place value (first.keeps place value found)
  satisfies place type member := by
    rcases List.mem_cons.mp member with equality | member
    · obtain ⟨value, found, same⟩ :=
        first.satisfies place type (equality ▸ List.mem_cons_self)
      exact ⟨value, others.keeps place value found, same⟩
    · exact others.satisfies place type member
  fromFindings place value found := by
    rcases others.fromFindings place value found with found | member
    · rcases first.fromFindings place value found with found | member
      · exact .inl found
      · exact .inr (List.mem_cons.mpr (.inl (List.mem_singleton.mp member)))
    · exact .inr (List.mem_cons_of_mem _ member)

theorem solves_of_bind {before after : Solution} {index : Nat} {known : Ty}
    (inRange : index < before.length)
    (added : before.bind target index known = .ok after) :
    Solves [.equation index known] before after := by
  rcases bind_eq_ok_iff.mp added with
    ⟨unknown, rfl⟩ | ⟨first, present, same, rfl⟩
  · refine ⟨by simp, by simp, ?_, ?_, ?_⟩
    · intro place value found
      have distinct : index ≠ place := by
        rintro rfl
        rw [unknown] at found
        cases found
      rwa [value?_set_of_ne before distinct]
    · intro place type member
      cases List.mem_singleton.mp member
      exact ⟨known, value?_set_self inRange known, BEq.rfl⟩
    · intro place value found
      rcases of_value?_set found with old | ⟨rfl, rfl⟩
      · exact .inl old
      · exact .inr List.mem_cons_self
  · refine ⟨rfl, by simp, fun _ _ found => found, ?_,
      fun _ _ found => .inl found⟩
    intro place type member
    cases List.mem_singleton.mp member
    exact ⟨first, present, same⟩

/-- Every equation is about a parameter that the solution has a place for. -/
def InRange (length : Nat) (findings : List Finding) : Prop :=
  ∀ index known, Finding.equation index known ∈ findings → index < length

theorem noConflict_of_foldlM {findings : List Finding} {before after : Solution}
    (added : findings.foldlM (Solution.add target) before = .ok after)
    (error : TypeError) : Finding.conflict error ∉ findings := by
  induction findings generalizing before with
  | nil => exact fun member => nomatch member
  | cons finding rest ih =>
      rw [List.foldlM_cons] at added
      intro member
      cases step : Solution.add target before finding with
      | error _ => simp [step, Bind.bind, Except.bind] at added
      | ok middle =>
          rw [step] at added
          rcases List.mem_cons.mp member with rfl | later
          · cases step
          · exact ih added later

theorem solves_of_foldlM {findings : List Finding} {before after : Solution}
    (inRange : InRange before.length findings)
    (added : findings.foldlM (Solution.add target) before = .ok after) :
    Solves findings before after := by
  induction findings generalizing before with
  | nil =>
      cases added
      exact .nil _
  | cons finding rest ih =>
      rw [List.foldlM_cons] at added
      cases finding with
      | conflict error => cases added
      | equation index known =>
          cases bound : before.bind target index known with
          | error error =>
              simp [Solution.add, bound, Bind.bind, Except.bind] at added
          | ok middle =>
              have first :=
                solves_of_bind (inRange index known List.mem_cons_self) bound
              refine first.cons (ih ?_ ?_)
              · intro place type member
                rw [first.length]
                exact inRange place type (List.mem_cons_of_mem _ member)
              · simpa [Solution.add, bound, Bind.bind, Except.bind] using added

/-- Whatever the findings say of one parameter is the same type, also where the
solution knows of it already. -/
structure Consistent (findings : List Finding)
    (solution : Solution) : Prop where
  noConflict : ∀ error, Finding.conflict error ∉ findings
  equal : ∀ index first second, Finding.equation index first ∈ findings →
    Finding.equation index second ∈ findings → (first == second) = true
  equalKnown : ∀ index value known, value? solution index = some value →
    Finding.equation index known ∈ findings → (value == known) = true

theorem Consistent.tail {index : Nat} {known : Ty} {rest : List Finding}
    {solution middle : Solution}
    (consistent : Consistent (.equation index known :: rest) solution)
    (origin : ∀ place value, value? middle place = some value →
      value? solution place = some value ∨ place = index ∧ value = known) :
    Consistent rest middle where
  noConflict error member :=
    consistent.noConflict error (List.mem_cons_of_mem _ member)
  equal place first second left right :=
    consistent.equal place first second (List.mem_cons_of_mem _ left)
      (List.mem_cons_of_mem _ right)
  equalKnown place value type found member := by
    have later := List.mem_cons_of_mem (Finding.equation index known) member
    rcases origin place value found with old | ⟨rfl, rfl⟩
    · exact consistent.equalKnown place value type old later
    · exact consistent.equal place value type List.mem_cons_self later

theorem exists_foldlM_of_consistent (target : Target) {findings : List Finding}
    {solution : Solution} (consistent : Consistent findings solution) :
    ∃ after, findings.foldlM (Solution.add target) solution = .ok after := by
  induction findings generalizing solution with
  | nil => exact ⟨solution, rfl⟩
  | cons finding rest ih =>
      cases finding with
      | conflict error =>
          exact absurd List.mem_cons_self (consistent.noConflict error)
      | equation index known =>
          rw [List.foldlM_cons, Solution.add]
          cases present : value? solution index with
          | none =>
              rw [bind_of_none present]
              exact ih (consistent.tail fun _ _ => of_value?_set)
          | some first =>
              have same :=
                consistent.equalKnown index first known present
                  List.mem_cons_self
              rw [bind_of_beq present same]
              exact ih (consistent.tail fun _ _ => .inl)

end NominalTypes.Solution
