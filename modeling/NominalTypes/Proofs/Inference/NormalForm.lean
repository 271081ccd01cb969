import NominalTypes.Proofs.Inference.Filling
import NominalTypes.Proofs.Registry.Runs

namespace NominalTypes

/-! Patterns in normal form, in which an application without
variables is a type. -/

namespace Pattern

mutual

/-- The variables of a pattern, from left to right. -/
def mentioned : Pattern → List Nat
  | .var index => [index]
  | .unbound => []
  | .closed _ => []
  | .apply _ args => mentionedAll args

def mentionedAll : List Pattern → List Nat
  | [] => []
  | arg :: rest => arg.mentioned ++ mentionedAll rest

end

/-- Every application in the pattern holds a variable.  The types in it
hold none anyway. -/
inductive Normal : Pattern → Prop
  | var (index : Nat) : Normal (.var index)
  | unbound : Normal .unbound
  | closed (ty : Ty) : Normal (.closed ty)
  | apply {id : TypeId} {args : List Pattern} (inner : ∀ arg ∈ args, Normal arg)
      (holds : (Pattern.apply id args).mentioned ≠ []) : Normal (.apply id args)

theorem mentionedAll_eq_flatMap (args : List Pattern) :
    mentionedAll args = args.flatMap mentioned := by
  induction args with
  | nil => rfl
  | cons arg rest ih => rw [mentionedAll, ih, List.flatMap_cons]

@[simp] theorem mentioned_apply (id : TypeId) (args : List Pattern) :
    (apply id args).mentioned = args.flatMap mentioned := by
  rw [mentioned, mentionedAll_eq_flatMap]

/-- In normal form the outermost constructor tells whether there are variables
at any depth. -/
theorem Normal.isOpen_iff {pattern : Pattern} (normal : pattern.Normal) :
    pattern.isOpen = true ↔ pattern.mentioned ≠ [] := by
  cases normal with
  | var index => exact iff_of_true rfl (List.cons_ne_nil index [])
  | unbound => exact iff_of_false Bool.false_ne_true fun holds => holds rfl
  | closed ty => exact iff_of_false Bool.false_ne_true fun holds => holds rfl
  | apply _ holds => exact iff_of_true rfl holds

variable {catalog : Catalog}

theorem Normal.application (id : TypeId) {args : List Pattern}
    (normal : ∀ arg ∈ args, arg.Normal) :
    (application catalog id args).Normal := by
  rw [Pattern.application]
  split
  · rename_i anyOpen
    obtain ⟨arg, member, isOpen⟩ := List.any_eq_true.mp anyOpen
    refine .apply normal fun none => ?_
    rw [mentioned_apply, List.flatMap_eq_nil_iff] at none
    exact (normal arg member).isOpen_iff.mp isOpen (none arg member)
  · exact .closed _

theorem Normal.evaluate {patterns : List Pattern}
    (normal : ∀ pattern ∈ patterns, pattern.Normal) (term : Term) :
    (term.evaluate catalog patterns).Normal := by
  induction term with
  | slot index =>
      rw [Term.evaluate_slot]
      cases found : patterns[index]? with
      | none => exact .unbound
      | some pattern => exact normal pattern (List.mem_of_getElem? found)
  | closed ty => exact .closed ty
  | apply id args ih =>
      rw [Term.evaluate_apply]
      refine .application id fun arg member => ?_
      obtain ⟨inner, innerMember, rfl⟩ := List.mem_map.mp member
      exact ih inner innerMember

end Pattern

/-- Whatever the declarations are, and whether or not there are patterns for all
the slots of a term, it is the same to evaluate the term with the patterns and
to assign types to the variables afterwards, or to evaluate it with what the
patterns stand for under the assignment.  If every application in the patterns
holds a variable, so does every application in the result. -/
theorem Term.evaluate_commutes (catalog : Catalog) (patterns : List Pattern)
    (term : Term) :
    (∀ assigned : Nat → Option Ty,
      (term.evaluate catalog patterns).value catalog assigned =
      term.evaluate catalog (patterns.map (Pattern.value catalog assigned))) ∧
    ((∀ pattern ∈ patterns, pattern.Normal) →
      (term.evaluate catalog patterns).Normal) :=
  ⟨fun assigned => Pattern.value_evaluate catalog assigned patterns term,
    fun normal => Pattern.Normal.evaluate normal term⟩

open Collections in
/-- A list of strings is a type at once.  The map holds the variable of the
other argument, and has an unbound slot where there is no pattern. -/
theorem Term.evaluate_commutes_map :
    let patterns : List Pattern := [.closed string, .apply 1 [.var 1]]
    let term : Term :=
      .apply 2 [.apply 2 [.slot 1, .apply 1 [.slot 0]], .slot 2]
    let catalog := registry.catalog
    (∀ pattern ∈ patterns, pattern.Normal) ∧
      term.evaluate catalog patterns = .apply 2 [.apply 2 [.apply 1 [.var 1],
        .closed (list (some string))], .unbound] ∧
      (term.evaluate catalog patterns).Normal ∧
      term.evaluate catalog [some string, some (list (some string))] =
        some (map
          (some (map (some (list (some string))) (some (list (some string)))))
          none) := by
  intro patterns term catalog
  have normal : ∀ pattern ∈ patterns, pattern.Normal := by
    refine List.forall_mem_cons.mpr
      ⟨.closed _, List.forall_mem_singleton.mpr (.apply ?_ ?_)⟩
    · exact List.forall_mem_singleton.mpr (.var 1)
    · exact List.cons_ne_nil 1 []
  obtain ⟨commutes, keeps⟩ := evaluate_commutes catalog patterns term
  have evaluated : term.evaluate catalog patterns =
      .apply 2 [.apply 2 [.apply 1 [.var 1],
        .closed (list (some string))], .unbound] := rfl
  have assigned := commutes fun _ => some string
  exact ⟨normal, evaluated, keeps normal, assigned.symm⟩

end NominalTypes
