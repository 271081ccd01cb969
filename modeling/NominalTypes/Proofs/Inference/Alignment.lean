import NominalTypes.Proofs.Hierarchy.View
import NominalTypes.Proofs.Inference.Outcome

namespace NominalTypes

/-! Comparisons of types that fit a catalog leave nothing out: wherever slots
are compared one by one, there are as many on both sides. -/

/-- The types have the same number of slots, and so have the types in them, as
far down as the identities are equal. -/
inductive Ty.Aligned : Ty → Ty → Prop
  | apart {declared known : Ty} (different : declared.id ≠ known.id) :
      Aligned declared known
  | beside {declared known : Ty}
      (lengths : declared.slots.length = known.slots.length)
      (each : ∀ index inner other, declared.slot? index = some inner →
        known.slot? index = some other → Aligned inner other) :
          Aligned declared known

theorem Ty.WellFormed.aligned {catalog : Catalog} {declared known : Ty}
    (wellFormed : declared.WellFormed catalog)
    (fits : known.WellFormed catalog) : declared.Aligned known := by
  induction wellFormed generalizing known with
  | @mk declared _ complete _ ih =>
      by_cases same : declared.id = known.id
      · refine .beside ?_ fun index inner other left right => ?_
        · rw [complete, same, fits.complete]
        · exact ih inner (mem_slots_of_slot? left)
            (fits.bound (mem_slots_of_slot? right))
      · exact .apart same

namespace Pattern

/-- A pattern of a declaration with `arity` parameters that fits the catalog.
Nothing in it is unbound. -/
inductive WellFormed (catalog : Catalog) (arity : Nat) : Pattern → Prop
  | var {index : Nat} (bound : index < arity) :
      WellFormed catalog arity (.var index)
  | closed {ty : Ty} (fits : ty.WellFormed catalog) :
      WellFormed catalog arity (.closed ty)
  | apply {id : TypeId} {args : List Pattern}
      (declared : catalog.contains id = true)
      (complete : args.length = catalog.arity id)
      (fitting : ∀ arg ∈ args, WellFormed catalog arity arg) :
      WellFormed catalog arity (.apply id args)

/-- The pattern has as many arguments as the type has slots, and so it is below,
as far down as they are matched. -/
inductive Aligned : Pattern → Ty → Prop
  | var {index : Nat} {known : Ty} : Aligned (.var index) known
  | closed {declared known : Ty} (inside : declared.Aligned known) :
      Aligned (.closed declared) known
  | apart {id : TypeId} {args : List Pattern} {known : Ty}
      (different : id ≠ known.id) : Aligned (.apply id args) known
  | beside {id : TypeId} {args : List Pattern} {known : Ty}
      (lengths : args.length = known.slots.length)
      (each : ∀ (index : Nat) arg other, args[index]? = some arg →
        known.slot? index = some other → Aligned arg other) : Aligned
          (.apply id args) known

variable {catalog : Catalog} {arity : Nat}

theorem WellFormed.aligned {pattern : Pattern}
    (wellFormed : pattern.WellFormed catalog arity) {known : Ty}
    (fits : known.WellFormed catalog) : pattern.Aligned known := by
  induction wellFormed generalizing known with
  | var _ => exact .var
  | closed declared => exact .closed (declared.aligned fits)
  | @apply id args _ complete _ ih =>
      by_cases same : id = known.id
      · refine .beside ?_ fun index arg other left right => ?_
        · rw [complete, same, fits.complete]
        · exact ih arg (List.mem_of_getElem? left)
            (fits.bound (Ty.mem_slots_of_slot? right))
      · exact .apart same

theorem WellFormed.application {id : TypeId} {args : List Pattern}
    (declared : catalog.contains id = true)
    (complete : args.length = catalog.arity id)
    (fitting : ∀ arg ∈ args, arg.WellFormed catalog arity) :
    (application catalog id args).WellFormed catalog arity := by
  rw [Pattern.application]
  split
  · exact .apply declared complete fitting
  · refine .closed
      (.mk declared (by rw [List.length_map, complete]) fun inner member => ?_)
    obtain ⟨arg, argMember, isClosed⟩ := List.mem_map.mp member
    cases fitting arg argMember with
    | closed fits =>
        cases isClosed
        exact fits
    | var _ => cases isClosed
    | apply _ _ _ => cases isClosed

theorem WellFormed.evaluate {slots : List Pattern}
    (fitting : ∀ slot ∈ slots, slot.WellFormed catalog arity) {term : Term}
    (wellFormed : term.WellFormed catalog slots.length)
    (closed : term.AllClosed (Ty.WellFormed catalog)) :
    (term.evaluate catalog slots).WellFormed catalog arity := by
  induction wellFormed with
  | @slot index bound =>
      rw [Term.evaluate_slot, List.getElem?_eq_getElem bound]
      exact fitting _ (List.getElem_mem bound)
  | closed ty =>
      cases closed with
      | closed fits => exact .closed fits
  | @apply id args declared complete _ ih =>
      cases closed with
      | apply inner =>
          rw [Term.evaluate_apply]
          refine .application declared (by rw [List.length_map, complete])
            fun arg member => ?_
          obtain ⟨term, termMember, rfl⟩ := List.mem_map.mp member
          exact ih term termMember (inner term termMember)

end Pattern

namespace Catalog

variable {catalog : Catalog} (sound : catalog.Sound)
  (closedSound : catalog.ClosedSound)

include sound closedSound

theorem viewPatterns_wellFormed {origin target : TypeId} {steps : List Step}
    (chain : catalog.Chain origin steps target) :
    (catalog.viewPatterns origin steps).length = catalog.arity target ∧
      ∀ pattern ∈ catalog.viewPatterns origin steps,
        pattern.WellFormed catalog (catalog.arity origin) := by
  obtain ⟨complete, fitting⟩ :=
    composeArgs_wellFormed sound chain (length_ownParams origin)
      (ownParams_wellFormed origin)
  have closed := chain.args_allClosed closedSound
  have vars : ∀ slot ∈ Pattern.vars (catalog.arity origin),
      slot.WellFormed catalog (catalog.arity origin) := by
    intro slot member
    obtain ⟨index, bound, rfl⟩ := List.mem_map.mp member
    exact .var (List.mem_range.mp bound)
  rw [viewPatterns, slotsAlong_eq_map sound chain (by simp)]
  refine ⟨by rw [List.length_map, complete], fun pattern member => ?_⟩
  obtain ⟨term, termMember, rfl⟩ := List.mem_map.mp member
  exact .evaluate vars (by simpa [Pattern.vars] using fitting term termMember)
    (composeArgs_allClosed closed (ownParams_allClosed _ origin) term termMember)

omit closedSound in
theorem Sound.lt_arity_of_mentions {id : TypeId} {parent : Parent}
    (declared : parent ∈ catalog.parents id) {index : Nat}
    (mentioned : parent.term.Mentions index) : index < catalog.arity id := by
  obtain ⟨position, stands⟩ := mentioned
  exact Term.wellFormed_slot_iff.mp
    ((sound.parent_wellFormed id parent declared).at? stands)

theorem parents_fit {ty : Ty} (wellFormed : ty.WellFormed catalog)
    {parent : Parent} (declared : parent ∈ catalog.parents ty.id) :
    (∀ index, parent.term.Mentions index → index < ty.slots.length) ∧
      (catalog.substitute ty.slots parent).WellFormed catalog := by
  refine ⟨fun index mentioned => ?_,
    substitute_wellFormed sound closedSound wellFormed declared⟩
  rw [wellFormed.complete]
  exact sound.lt_arity_of_mentions declared mentioned

theorem viewPatterns_fit {known : Ty} (wellFormed : known.WellFormed catalog)
    {target : TypeId} {steps : List Step}
    (chain : catalog.Chain target steps known.id) :
    (∀ below step above, steps = below ++ step :: above → ∀ index,
      step.parent.term.Mentions index →
        index < (catalog.viewPatterns target below).length) ∧
    (∀ below above,
      steps = below ++ above → ∀ pattern ∈ catalog.viewPatterns target below,
      pattern.WellFormed catalog (catalog.arity target)) ∧
    (catalog.viewPatterns target steps).length = known.slots.length ∧
    ∀ (index : Nat) (pattern : Pattern) (other : Ty),
      (catalog.viewPatterns target steps)[index]? = some pattern →
      known.slot? index = some other → pattern.Aligned other := by
  obtain ⟨complete, fitting⟩ := viewPatterns_wellFormed sound closedSound chain
  refine ⟨?_, ?_, complete.trans wellFormed.complete.symm, ?_⟩
  · rintro below step above rfl index mentioned
    obtain ⟨middle, first, second⟩ := chain.exists_middle
    cases second with
    | cons declared _ =>
        rw [(viewPatterns_wellFormed sound closedSound first).1]
        exact sound.lt_arity_of_mentions
          (parent_mem_of_mem_steps declared) mentioned
  · rintro below above rfl
    obtain ⟨middle, first, _⟩ := chain.exists_middle
    exact (viewPatterns_wellFormed sound closedSound first).2
  · intro index pattern other left right
    exact (fitting pattern (List.mem_of_getElem? left)).aligned
      (wellFormed.bound (Ty.mem_slots_of_slot? right))

end Catalog

end NominalTypes
