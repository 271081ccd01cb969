import NominalTypes.Proofs.Hierarchy.Locality
import NominalTypes.Proofs.Inference.Positions

namespace NominalTypes

/-! Inference reads no declarations but those from the target upwards. -/

namespace Pattern

/-- What is applied in the pattern is declared. -/
inductive Declared (catalog : Catalog) : Pattern → Prop
  | var (index : Nat) : Declared catalog (.var index)
  | unbound : Declared catalog .unbound
  | closed (ty : Ty) : Declared catalog (.closed ty)
  | apply {id : TypeId} {args : List Pattern}
      (declared : catalog.contains id = true)
      (inner : ∀ arg ∈ args, Declared catalog arg) :
      Declared catalog (.apply id args)

variable {before after : Catalog}

theorem Declared.evaluate {arity : Nat} {term : Term}
    (wellFormed : term.WellFormed before arity) {slots : List Pattern}
    (each : ∀ slot ∈ slots, slot.Declared before) :
    (term.evaluate before slots).Declared before := by
  induction wellFormed with
  | @slot index _ =>
      rw [Term.evaluate_slot]
      cases found : slots[index]? with
      | none => exact .unbound
      | some slot => exact each slot (List.mem_of_getElem? found)
  | closed ty => exact .closed ty
  | apply declared _ _ ih =>
      rw [Term.evaluate_apply_pattern, application]
      split
      · exact .apply declared (List.forall_mem_map.mpr ih)
      · exact .closed _

theorem application_extends (extension : before.Extends after) {id : TypeId}
    (declared : before.contains id = true) (args : List Pattern) :
    application after id args = application before id args := by
  rw [application, application, extension.name declared]

theorem Declared.describe_extends {pattern : Pattern}
    (declared : pattern.Declared before) (extension : before.Extends after)
    (params : List String) :
    pattern.describe after params = pattern.describe before params := by
  induction declared with
  | var | unbound | closed => rfl
  | apply known _ ih =>
      rw [describe, describe, extension.name known, describeAll_eq_map,
        describeAll_eq_map, List.map_congr_left ih]

section Matching

variable (target : Target)

theorem matchAll_congr {patterns : List Pattern}
    (each : ∀ pattern ∈ patterns, ∀ position solution known,
      pattern.matchWith after target position solution known =
        pattern.matchWith before target position solution known)
    (owner : String) (count index : Nat) (solution : Solution)
    (known : List (Option Ty)) :
    matchAll after target owner count index solution patterns known =
      matchAll before target owner count index solution patterns known := by
  induction patterns generalizing index solution known with
  | nil => rw [matchAll, matchAll] <;> simp
  | cons pattern rest ih =>
      cases known with
      | nil => rfl
      | cons slot known =>
          have later := ih fun pattern member =>
            each pattern (List.mem_cons_of_mem _ member)
          rw [matchAll, matchAll, each pattern List.mem_cons_self]
          simp only [later]

theorem Declared.matchWith_extends {pattern : Pattern}
    (declared : pattern.Declared before) (extension : before.Extends after)
    (position : Position) (solution : Solution) (known : Option Ty) :
    pattern.matchWith after target position solution known =
      pattern.matchWith before target position solution known := by
  induction declared generalizing position solution known with
  | var | unbound | closed => cases known <;> rfl
  | @apply id args known inner ih =>
      cases known with
      | none => rfl
      | some known =>
          rename_i applied
          rw [matchWith, matchWith,
            (Declared.apply applied inner).describe_extends extension,
            matchAll_congr target ih]

end Matching

end Pattern

namespace Catalog

variable {before after : Catalog} {origin target : TypeId}

theorem declared_slotsAlong (sound : before.Sound) {steps : List Step}
    (chain : before.Chain origin steps target) {slots : List Pattern}
    (each : ∀ slot ∈ slots, slot.Declared before) :
    ∀ slot ∈ before.slotsAlong slots steps, slot.Declared before := by
  induction chain generalizing slots with
  | nil => exact each
  | @cons origin target step rest declared _ ih =>
      obtain ⟨_, _, fitting⟩ :=
        sound.args_fit (parent_mem_of_mem_steps declared)
      rw [slotsAlong, List.foldl_cons]
      refine ih ?_
      rw [Term.evaluateAll_eq_map, List.forall_mem_map]
      exact fun arg member => .evaluate (fitting arg member) each

namespace SameAbove

theorem slotsAlong (same : before.SameAbove after origin) {steps : List Step}
    (chain : before.Chain origin steps target) (slots : List Pattern) :
    after.slotsAlong slots steps = before.slotsAlong slots steps := by
  induction chain generalizing slots with
  | nil => rfl
  | @cons origin target step rest declared _ ih =>
      have first := same.sound.evaluateAll_congr
        (fun _ known => Pattern.application_extends same.extension known) slots
        (parent_mem_of_mem_steps declared)
      rw [Catalog.slotsAlong, Catalog.slotsAlong, List.foldl_cons,
        List.foldl_cons, first]
      exact ih (same.of_step declared) _

theorem infer (same : before.SameAbove after target)
    (alike : before.Alike after target) (known : Ty) :
    after.infer known target = before.infer known target := by
  rw [Catalog.infer, Catalog.infer, alike.contains, alike.name, alike.arity,
    alike.params, same.path]
  cases found : before.path target known.id with
  | none => rfl
  | some steps =>
      have chain := path_chain found
      have vars : ∀ slot ∈ (List.range (before.arity target)).map Pattern.var,
          slot.Declared before :=
            List.forall_mem_map.mpr fun index _ => .var index
      have matched := fun position (pattern : Pattern)
          (member : pattern ∈ before.viewPatterns target steps) =>
        (declared_slotsAlong same.sound chain vars pattern
            member).matchWith_extends position
          same.extension
      have patterns : after.viewPatterns target steps =
          before.viewPatterns target steps := by
        rw [viewPatterns, viewPatterns, alike.arity, same.slotsAlong chain]
      simp only [patterns, Pattern.matchAll_congr _ (matched _)]

end SameAbove

end Catalog

end NominalTypes
