import NominalTypes.Proofs.Inference.Solutions
import NominalTypes.Proofs.Term.Substitution

namespace NominalTypes

/-! Patterns with types in the place of their variables. -/

namespace Pattern

mutual

/-- The slot that a pattern becomes when types are assigned to its variables. -/
def value (catalog : Catalog) (assigned : Nat → Option Ty) : Pattern → Option Ty
  | .var index => assigned index
  | .unbound => none
  | .closed ty => some ty
  | .apply id args =>
      some ⟨id, catalog.name id, valueAll catalog assigned args, none⟩

def valueAll (catalog : Catalog) (assigned : Nat → Option Ty) :
    List Pattern → List (Option Ty)
  | [] => []
  | arg :: rest => arg.value catalog assigned :: valueAll catalog assigned rest

end

section Value

variable (catalog : Catalog) (assigned : Nat → Option Ty)

theorem valueAll_eq_map (args : List Pattern) :
    valueAll catalog assigned args = args.map (value catalog assigned) := by
  induction args with
  | nil => rfl
  | cons arg rest ih => rw [valueAll, ih, List.map_cons]

theorem value_apply (id : TypeId) (args : List Pattern) :
    (apply id args).value catalog assigned =
      some ⟨id, catalog.name id, args.map (value catalog assigned), none⟩ := by
  rw [value, valueAll_eq_map]

theorem value_eq_closed? {pattern : Pattern} (closed : pattern.isOpen = false) :
    pattern.value catalog assigned = pattern.closed? := by
  cases pattern with
  | var index => cases closed
  | unbound => rfl
  | closed ty => rw [value, closed?]
  | apply id args => cases closed

theorem value_application (id : TypeId) (args : List Pattern) :
    (application catalog id args).value catalog assigned =
      some ⟨id, catalog.name id, args.map (value catalog assigned), none⟩ := by
  rw [application]
  split
  · rw [value_apply]
  · rename_i allClosed
    have same : args.map (value catalog assigned) = args.map closed? := by
      apply List.map_congr_left
      intro arg member
      exact value_eq_closed? catalog assigned
        (by
          simpa using fun isOpen =>
            allClosed (List.any_eq_true.mpr ⟨arg, member, isOpen⟩))
    rw [value, same]

/-- Evaluating with patterns and then assigning types is evaluating with the
values of the patterns. -/
theorem value_evaluate (patterns : List Pattern) (term : Term) :
    (term.evaluate catalog patterns).value catalog assigned =
      term.evaluate catalog (patterns.map (value catalog assigned)) := by
  induction term with
  | slot index =>
      rw [Term.evaluate_slot, Term.evaluate_slot, List.getElem?_map]
      cases patterns[index]? with
      | none => rfl
      | some pattern => rfl
  | closed ty => rfl
  | apply id args ih =>
      rw [Term.evaluate_apply, Term.evaluate_apply_type]
      refine (value_application catalog assigned id _).trans ?_
      rw [List.map_map]
      congr 2
      exact List.map_congr_left ih

end Value

/-- The slot that a pattern becomes when the slots of a solution are assigned to
its variables. -/
def fill (catalog : Catalog) (solution : Solution) : Pattern → Option Ty :=
  value catalog solution.value?

def vars (arity : Nat) : List Pattern := (List.range arity).map .var

section Fill

variable (catalog : Catalog) (solution : Solution)

@[simp] theorem fill_var (index : Nat) :
    (var index).fill catalog solution = solution.value? index := by
  rw [fill, value]

@[simp] theorem fill_unbound : unbound.fill catalog solution = none := by
  rw [fill, value]

@[simp] theorem fill_closed (ty : Ty) :
    (closed ty).fill catalog solution = some ty := by
  rw [fill, value]

@[simp] theorem fill_apply (id : TypeId) (args : List Pattern) :
    (apply id args).fill catalog solution =
      some ⟨id, catalog.name id, args.map (fill catalog solution), none⟩ :=
  value_apply catalog solution.value? id args

/-- Evaluating with patterns and then filling is evaluating with the
filled patterns. -/
theorem fill_evaluate (patterns : List Pattern) (term : Term) :
    (term.evaluate catalog patterns).fill catalog solution =
      term.evaluate catalog (patterns.map (fill catalog solution)) :=
  value_evaluate catalog solution.value? patterns term

variable {solution}

theorem fill_vars {arity : Nat} (complete : solution.length = arity) :
    (vars arity).map (fill catalog solution) = solution := by
  apply List.ext_getElem (by simp [vars, complete])
  intro index _ bound
  simp [vars, Solution.value?, bound]

end Fill

end Pattern

end NominalTypes
