import NominalTypes.Proofs.Hierarchy.DeclaredView
import NominalTypes.Proofs.Inference.Positions
import NominalTypes.Proofs.Registry.Belonging

namespace NominalTypes

/-! Comparing a pattern with a known type, position by position.

Types within patterns are taken as patterns themselves, so that it makes no
difference whether a part of a pattern holds a variable. -/

namespace Pattern

/-- The identity that a pattern has, whatever its variables stand for. -/
def id? : Pattern → Option TypeId
  | .closed ty => some ty.id
  | .apply id _ => some id
  | .var _ => none
  | .unbound => none

def ofSlot : Option Ty → Pattern
  | none => .unbound
  | some ty => .closed ty

def args : Pattern → List Pattern
  | .closed ty => ty.slots.map ofSlot
  | .apply _ args => args
  | .var _ => []
  | .unbound => []

/-- What stands opposite to each other in a pattern and a known type, at which
position and in which slot of the known type.  Comparison goes down as long as
the identities are equal, and stops at what is unbound and at variables. -/
inductive Meets : Pattern → Ty → List Nat → Position → Pattern → Ty → Prop
  | here {pattern part : Pattern} {known nested : Ty} {index : Nat}
      (same : pattern.id? = some known.id)
      (left : pattern.args[index]? = some part)
      (right : known.slot? index = some nested) :
      Meets pattern known [index]
        ⟨known.name, index, known.slots.length⟩ part nested
  | inside {pattern arg part : Pattern} {known inner nested : Ty} {index : Nat}
      {position : List Nat} {place : Position}
      (same : pattern.id? = some known.id)
      (left : pattern.args[index]? = some arg)
      (right : known.slot? index = some inner)
      (deeper : Meets arg inner position place part nested) :
      Meets pattern known (index :: position) place part nested

theorem induction_args {motive : Pattern → Prop}
    (step : ∀ pattern, (∀ arg ∈ pattern.args, motive arg) → motive pattern)
    (pattern : Pattern) : motive pattern := by
  have unbound : motive .unbound := step _ (List.forall_mem_nil _)
  induction pattern with
  | var index => exact step _ (List.forall_mem_nil _)
  | unbound => exact unbound
  | apply id args ih => exact step _ ih
  | closed ty =>
      induction ty with
      | mk id name slots handle ih =>
          refine step _ fun arg member => ?_
          obtain ⟨slot, slotMember, rfl⟩ := List.mem_map.mp member
          cases slot with
          | none => exact unbound
          | some inner => exact ih inner slotMember

/-- A pattern of a declaration with `arity` parameters, all types in which
belong to the catalog. -/
inductive Sits (catalog : Catalog) (arity : Nat) : Pattern → Prop
  | var {index : Nat} (bound : index < arity) : Sits catalog arity (.var index)
  | unbound : Sits catalog arity .unbound
  | closed {ty : Ty} (belongs : ty.Belongs catalog) :
      Sits catalog arity (.closed ty)
  | apply {id : TypeId} {args : List Pattern}
      (complete : args.length = catalog.arity id)
      (fitting : ∀ arg ∈ args, Sits catalog arity arg) :
      Sits catalog arity (.apply id args)

section Sits

variable {catalog : Catalog} {arity : Nat} {pattern : Pattern}

theorem Sits.args (sits : pattern.Sits catalog arity) :
    ∀ arg ∈ pattern.args, arg.Sits catalog arity := by
  intro arg member
  cases sits with
  | var => cases member
  | unbound => cases member
  | apply _ fitting => exact fitting arg member
  | closed belongs =>
      obtain ⟨slot, slotMember, rfl⟩ := List.mem_map.mp member
      cases slot with
      | none => exact .unbound
      | some inner => exact .closed (belongs.bound slotMember)

theorem Sits.length_args (sits : pattern.Sits catalog arity) {id : TypeId}
    (found : pattern.id? = some id) :
    pattern.args.length = catalog.arity id := by
  cases sits with
  | var => cases found
  | unbound => cases found
  | apply complete _ =>
      cases found
      exact complete
  | closed belongs =>
      cases found
      exact (List.length_map _).trans belongs.here.complete

theorem id?_application (id : TypeId) (args : List Pattern) :
    (application catalog id args).id? = some id := by
  rw [application]
  split <;> rfl

theorem ofSlot_closed? {pattern : Pattern} (closed : pattern.isOpen = false) :
    ofSlot pattern.closed? = pattern := by
  cases pattern with
  | var => cases closed
  | unbound => rfl
  | closed ty => rfl
  | apply => cases closed

theorem args_application (id : TypeId) (args : List Pattern) :
    (application catalog id args).args = args := by
  rw [application]
  split
  · rfl
  · rename_i noneOpen
    rw [Bool.not_eq_true, List.any_eq_false] at noneOpen
    rw [Pattern.args, List.map_map]
    refine (List.map_congr_left fun arg member => ?_).trans (List.map_id args)
    exact ofSlot_closed? (Bool.eq_false_iff.mpr (noneOpen arg member))

theorem Sits.application {id : TypeId} {args : List Pattern}
    (declared : catalog.contains id = true)
    (complete : args.length = catalog.arity id)
    (fitting : ∀ arg ∈ args, arg.Sits catalog arity) :
    (application catalog id args).Sits catalog arity := by
  rw [Pattern.application]
  split
  · exact .apply complete fitting
  · refine .closed
      (.mk ⟨declared, (List.length_map _).trans complete, rfl⟩ fun inner member => ?_)
    obtain ⟨arg, argMember, isClosed⟩ := List.mem_map.mp member
    cases fitting arg argMember with
    | var => cases isClosed
    | unbound => cases isClosed
    | apply => cases isClosed
    | closed belongs =>
        cases isClosed
        exact belongs

theorem Sits.evaluate {term : Term} (wellFormed : term.WellFormed catalog arity)
    (closed : term.AllClosed (Ty.Belongs catalog)) :
    (term.evaluate catalog (vars arity)).Sits catalog arity := by
  induction wellFormed with
  | slot bound =>
      rw [evaluate_variable catalog bound]
      exact .var bound
  | closed ty =>
      cases closed with
      | closed belongs => exact .closed belongs
  | @apply id args declared complete _ ih =>
      cases closed with
      | apply inner =>
          rw [Term.evaluate_apply_pattern]
          refine .application declared ((List.length_map _).trans complete)
            fun arg member => ?_
          obtain ⟨term, termMember, rfl⟩ := List.mem_map.mp member
          exact ih term termMember (inner term termMember)

end Sits

/-! Findings by the identity of the pattern. -/

section Findings

variable {catalog : Catalog} {params : List String} {arity : Nat}
  {pattern : Pattern} {known : Ty}

theorem findingsAll_ofSlot (owner : String) (count index : Nat)
    (slots known : List (Option Ty)) :
    findingsAll catalog params owner count index (slots.map ofSlot) known =
      (Ty.slotsConflicts owner count index slots known).map .conflict := by
  induction slots generalizing index known with
  | nil => rfl
  | cons slot slots ih =>
      cases known with
      | nil => rfl
      | cons found known =>
          rw [List.map_cons, findingsAll, Ty.slotsConflicts,
            List.map_append, ih]
          congr 1
          cases slot with
          | none => cases found <;> rfl
          | some inner => cases found <;> rfl

theorem findings_of_ne {id : TypeId} (found : pattern.id? = some id)
    (different : id ≠ known.id) (place : Position) :
    pattern.findings catalog params place (some known) =
      [.conflict (place.mismatch known.brief (pattern.describe catalog params))] := by
  cases pattern with
  | var => cases found
  | unbound => cases found
  | apply id args =>
      cases found
      rw [findings, if_neg different]
  | closed ty =>
      cases found
      cases ty with
      | mk id name slots handle =>
          rw [findings, Ty.conflicts, if_neg different, describe]
          rfl

theorem findings_of_eq (sits : pattern.Sits catalog arity)
    (belongs : known.Belongs catalog) (same : pattern.id? = some known.id)
    (place : Position) :
    pattern.findings catalog params place (some known) =
      findingsAll catalog params known.name known.slots.length 0 pattern.args
        known.slots := by
  have count : pattern.args.length = known.slots.length :=
    (sits.length_args same).trans belongs.here.complete.symm
  cases sits with
  | var => cases same
  | unbound => cases same
  | apply complete _ =>
      cases same
      rw [findings, if_pos rfl, ← count]
      rfl
  | @closed ty proper =>
      have ids : ty.id = known.id := Option.some.inj same
      have names : ty.name = known.name := by
        rw [proper.here.name, belongs.here.name, ids]
      rw [args, List.length_map] at count
      cases ty with
      | mk id name slots handle =>
          rw [findings, Ty.conflicts, if_pos ids, args, findingsAll_ofSlot,
            ← count, ← names]

end Findings

end Pattern

end NominalTypes
