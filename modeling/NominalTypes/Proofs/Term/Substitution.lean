import NominalTypes.Proofs.Term.WellFormed
import NominalTypes.Proofs.Ty.Everywhere
import NominalTypes.Term.Evaluation

namespace NominalTypes.Term

/-! Terms in the place of slots. -/

mutual

/-- The term with arguments in the place of its slots. -/
def substitute (args : List Term) : Term → Term
  | .slot index => args[index]?.getD (.slot index)
  | .closed ty => .closed ty
  | .apply id inner => .apply id (substituteAll args inner)

def substituteAll (args : List Term) : List Term → List Term
  | [] => []
  | term :: rest => term.substitute args :: substituteAll args rest

end

/-- The term at a position: from the top down, the places of the arguments
through which it is reached. -/
def at? : Term → List Nat → Option Term
  | term, [] => some term
  | .apply _ args, index :: position =>
      args[index]?.bind fun arg => arg.at? position
  | _, _ :: _ => none

/-- A slot stands somewhere in the term, outside its closed types. -/
def Mentions (term : Term) (index : Nat) : Prop :=
  ∃ position, term.at? position = some (.slot index)

@[simp] theorem substitute_slot (args : List Term) (index : Nat) :
    (slot index).substitute args = args[index]?.getD (.slot index) := by
  rw [substitute]

@[simp] theorem substitute_closed (args : List Term) (ty : Ty) :
    (closed ty).substitute args = .closed ty := by
  rw [substitute]

theorem substituteAll_eq_map (args terms : List Term) :
    substituteAll args terms = terms.map (substitute args) := by
  induction terms with
  | nil => rfl
  | cons term rest ih => rw [substituteAll, ih, List.map_cons]

@[simp] theorem substitute_apply (args : List Term) (id : TypeId)
    (inner : List Term) :
    (apply id inner).substitute args =
      .apply id (inner.map (substitute args)) := by
  rw [substitute, substituteAll_eq_map]

variable {catalog : Catalog} {arity : Nat}

theorem at?_apply_cons {id : TypeId} {args : List Term} {place : Nat}
    {position : List Nat} {nested : Term} :
    (apply id args).at? (place :: position) = some nested ↔
      ∃ arg, args[place]? = some arg ∧ arg.at? position = some nested := by
  rw [at?, Option.bind_eq_some_iff]

theorem at?_append_iff {term nested : Term} {front back : List Nat} :
    term.at? (front ++ back) = some nested ↔
      ∃ middle, term.at? front = some middle ∧
        middle.at? back = some nested := by
  induction front generalizing term with
  | nil => simp [at?]
  | cons place front ih =>
      cases term with
      | slot _ => simp [at?]
      | closed _ => simp [at?]
      | apply id args =>
          simp only [List.cons_append, at?_apply_cons, ih]
          constructor
          · rintro ⟨arg, found, middle, stands, nested⟩
            exact ⟨middle, ⟨arg, found, stands⟩, nested⟩
          · rintro ⟨middle, ⟨arg, found, stands⟩, nested⟩
            exact ⟨arg, found, middle, stands, nested⟩

mutual

/-- The slots that stand in a term, from left to right. -/
def mentioned : Term → List Nat
  | .slot index => [index]
  | .closed _ => []
  | .apply _ args => mentionedAll args

def mentionedAll : List Term → List Nat
  | [] => []
  | arg :: rest => arg.mentioned ++ mentionedAll rest

end

theorem mentionedAll_eq_flatMap (args : List Term) :
    mentionedAll args = args.flatMap mentioned := by
  induction args with
  | nil => rfl
  | cons arg rest ih => rw [mentionedAll, ih, List.flatMap_cons]

theorem mem_mentioned_iff (term : Term) (index : Nat) :
    index ∈ term.mentioned ↔ term.Mentions index := by
  induction term with
  | slot place =>
      rw [mentioned, List.mem_singleton]
      constructor
      · rintro rfl
        exact ⟨[], rfl⟩
      · rintro ⟨position, stands⟩
        cases position with
        | nil =>
            cases stands
            rfl
        | cons _ _ => cases stands
  | closed ty =>
      rw [mentioned]
      constructor
      · exact fun member => nomatch member
      · rintro ⟨position, stands⟩
        cases position <;> cases stands
  | apply id args ih =>
      rw [mentioned, mentionedAll_eq_flatMap, List.mem_flatMap]
      constructor
      · rintro ⟨arg, member, inside⟩
        obtain ⟨position, stands⟩ := (ih arg member).mp inside
        obtain ⟨place, found⟩ := List.mem_iff_getElem?.mp member
        exact ⟨place :: position, at?_apply_cons.mpr ⟨arg, found, stands⟩⟩
      · rintro ⟨position, stands⟩
        cases position with
        | nil => cases stands
        | cons place position =>
            obtain ⟨arg, found, stands⟩ := at?_apply_cons.mp stands
            have member := List.mem_of_getElem? found
            exact ⟨arg, member, (ih arg member).mpr ⟨position, stands⟩⟩

instance (term : Term) (index : Nat) : Decidable (term.Mentions index) :=
  decidable_of_iff _ (mem_mentioned_iff term index)

theorem WellFormed.at? {term nested : Term}
    (wellFormed : term.WellFormed catalog arity) {position : List Nat}
    (stands : term.at? position = some nested) :
    nested.WellFormed catalog arity := by
  induction wellFormed generalizing position with
  | slot bound =>
      cases position with
      | nil =>
          cases stands
          exact .slot bound
      | cons _ _ => cases stands
  | closed ty =>
      cases position with
      | nil =>
          cases stands
          exact .closed ty
      | cons _ _ => cases stands
  | apply declared complete fitting ih =>
      cases position with
      | nil =>
          cases stands
          exact .apply declared complete fitting
      | cons place position =>
          obtain ⟨arg, found, stands⟩ := at?_apply_cons.mp stands
          exact ih arg (List.mem_of_getElem? found) stands

theorem WellFormed.substitute {args : List Term} {term : Term}
    (wellFormed : term.WellFormed catalog args.length)
    (fitting : ∀ arg ∈ args, arg.WellFormed catalog arity) :
    (term.substitute args).WellFormed catalog arity := by
  induction wellFormed with
  | @slot index bound =>
      rw [substitute_slot, List.getElem?_eq_getElem bound]
      exact fitting _ (List.getElem_mem bound)
  | closed ty => exact .closed ty
  | apply declared complete _ ih =>
      rw [substitute_apply]
      refine .apply declared (by rw [List.length_map, complete]) ?_
      intro arg member
      obtain ⟨inner, innerMember, rfl⟩ := List.mem_map.mp member
      exact ih inner innerMember

theorem AllClosed.substitute {property : Ty → Prop} {args : List Term}
    {term : Term} (all : term.AllClosed property)
    (allArgs : ∀ arg ∈ args, arg.AllClosed property) :
    (term.substitute args).AllClosed property := by
  induction all with
  | slot index =>
      rw [substitute_slot]
      cases found : args[index]? with
      | none => exact .slot index
      | some arg => exact allArgs arg (List.mem_of_getElem? found)
  | closed holds => exact .closed holds
  | apply _ ih =>
      rw [substitute_apply]
      refine .apply fun arg member => ?_
      obtain ⟨inner, innerMember, rfl⟩ := List.mem_map.mp member
      exact ih inner innerMember

theorem substitute_substitute (args : List Term) {inner : List Term}
    {term : Term} (wellFormed : term.WellFormed catalog inner.length) :
    (term.substitute inner).substitute args =
      term.substitute (inner.map (substitute args)) := by
  induction wellFormed with
  | slot bound => simp [bound]
  | closed ty => simp
  | apply _ _ _ ih =>
      rw [substitute_apply, substitute_apply, substitute_apply, List.map_map]
      congr 1
      exact List.map_congr_left fun arg member => ih arg member

/-- The slots of a term in which arguments stand for the slots are the slots of
these arguments. -/
theorem at?_substitute_iff {args : List Term} {term : Term}
    (wellFormed : term.WellFormed catalog args.length) {position : List Nat}
    {index : Nat} :
    (term.substitute args).at? position = some (.slot index) ↔
      ∃ front place back arg, position = front ++ back ∧
        term.at? front = some (.slot place) ∧
        args[place]? = some arg ∧ arg.at? back = some (.slot index) := by
  constructor
  · intro stands
    induction wellFormed generalizing position with
    | @slot place bound =>
        rw [substitute_slot, List.getElem?_eq_getElem bound,
          Option.getD_some] at stands
        exact ⟨[], place, position, _, rfl, rfl,
          List.getElem?_eq_getElem bound, stands⟩
    | closed ty => cases position <;> cases stands
    | @apply id inner _ _ _ ih =>
        rw [substitute_apply] at stands
        cases position with
        | nil => cases stands
        | cons first position =>
            obtain ⟨substituted, located, stands⟩ := at?_apply_cons.mp stands
            rw [List.getElem?_map, Option.map_eq_some_iff] at located
            obtain ⟨nested, located, rfl⟩ := located
            obtain ⟨front, place, back, arg, rfl, here, found, below⟩ :=
              ih nested (List.mem_of_getElem? located) stands
            exact ⟨first :: front, place, back, arg, rfl,
              at?_apply_cons.mpr ⟨nested, located, here⟩, found, below⟩
  · rintro ⟨front, place, back, arg, rfl, here, found, below⟩
    refine at?_append_iff.mpr ⟨arg, ?_, below⟩
    induction wellFormed generalizing front with
    | slot bound =>
        cases front with
        | nil =>
            cases here
            rw [substitute_slot, found]
            rfl
        | cons _ _ => cases here
    | closed ty => cases front <;> cases here
    | apply _ _ _ ih =>
        cases front with
        | nil => cases here
        | cons first front =>
            obtain ⟨nested, located, here⟩ := at?_apply_cons.mp here
            rw [substitute_apply]
            refine at?_apply_cons.mpr ⟨nested.substitute args, ?_,
              ih nested (List.mem_of_getElem? located) front here⟩
            rw [List.getElem?_map, located, Option.map_some]

/-- Evaluating after a substitution is evaluating with the values of what
is substituted. -/
theorem evaluate_substitute {α : Type} [SlotAlgebra α] (slots : List α)
    {args : List Term} {term : Term}
    (wellFormed : term.WellFormed catalog args.length) :
    (term.substitute args).evaluate catalog slots =
      term.evaluate catalog (args.map (evaluate catalog slots)) := by
  induction wellFormed with
  | @slot index bound => simp [bound]
  | closed ty => simp
  | apply _ _ _ ih =>
      rw [substitute_apply, evaluate_apply, evaluate_apply, List.map_map]
      congr 1
      exact List.map_congr_left fun arg member => ih arg member

section Types

variable (slots : List (Option Ty))

theorem evaluate_slot_type (index : Nat) :
    (slot index).evaluate catalog slots = slots[index]?.join := by
  rw [evaluate_slot]
  cases slots[index]? <;> rfl

theorem evaluate_apply_type (id : TypeId) (args : List Term) :
    (apply id args).evaluate catalog slots =
      some ⟨id, catalog.name id, args.map (evaluate catalog slots), none⟩ :=
  evaluate_apply catalog slots id args

variable {slots}

/-- What holds of complete applications, and everywhere in the closed types and
in the slots, holds everywhere in the value. -/
theorem evaluate_everywhere {property : Ty → Prop} {term : Term}
    (wellFormed : term.WellFormed catalog arity)
    (closed : term.AllClosed (Ty.Everywhere property))
    (bound : ∀ ty, some ty ∈ slots → ty.Everywhere property)
    (built : ∀ id args, catalog.contains id = true →
      args.length = catalog.arity id →
      property ⟨id, catalog.name id, args, none⟩) {value : Ty}
    (evaluated : term.evaluate catalog slots = some value) :
    value.Everywhere property := by
  induction wellFormed generalizing value with
  | @slot index _ =>
      rw [evaluate_slot_type, Option.join_eq_some_iff] at evaluated
      exact bound value (List.mem_of_getElem? evaluated)
  | closed ty =>
      cases evaluated
      cases closed
      assumption
  | apply declared complete _ ih =>
      rw [evaluate_apply_type] at evaluated
      cases evaluated
      cases closed with
      | apply inner =>
          refine .mk (built _ _ declared (by rw [List.length_map, complete])) ?_
          intro ty member
          obtain ⟨arg, argMember, found⟩ := List.mem_map.mp member
          exact ih arg argMember (inner arg argMember) found

theorem evaluate_wellFormed {term : Term}
    (wellFormed : term.WellFormed catalog arity)
    (closed : term.AllClosed (Ty.WellFormed catalog))
    (bound : ∀ ty, some ty ∈ slots → ty.WellFormed catalog) {value : Ty}
    (evaluated : term.evaluate catalog slots = some value) :
    value.WellFormed catalog := by
  have everywhere := fun ty => Ty.wellFormed_iff_everywhere catalog ty
  exact (everywhere value).mpr (evaluate_everywhere wellFormed
    (closed.imp fun ty holds => (everywhere ty).mp holds)
    (fun ty member => (everywhere ty).mp (bound ty member))
    (fun _ _ declared complete => ⟨declared, complete⟩) evaluated)

/-- A term whose value agrees with a type without unbound slots has a value
without unbound slots, if what is put into its slots has none wherever the
type is bound. -/
theorem exists_isFullyBound_evaluate (slots : List (Option Ty)) {term : Term}
    (wellFormed : term.WellFormed catalog arity)
    (closed : term.AllClosed fun ty => ty.isFullyBound = true) {known : Ty}
    (fits : known.WellFormed catalog) (full : known.isFullyBound = true)
    (agreement : ∀ value, term.evaluate catalog slots = some value →
      value.Agrees known)
    (filled : ∀ position index found, term.at? position = some (.slot index) →
      known.at? position = some found →
      ∃ value, slots[index]?.join = some value ∧ value.isFullyBound = true) :
    ∃ value, term.evaluate catalog slots = some value ∧
      value.isFullyBound = true := by
  induction wellFormed generalizing known with
  | @slot index _ =>
      rw [evaluate_slot_type]
      exact filled [] index known rfl rfl
  | closed ty =>
      cases closed with
      | closed holds => exact ⟨ty, rfl, holds⟩
  | @apply id args declared complete _ ih =>
      cases closed with
      | apply inner =>
          refine ⟨_, evaluate_apply_type slots id args,
            (Ty.isFullyBound_iff _).mpr ?_⟩
          intro slot member
          obtain ⟨arg, argMember, rfl⟩ := List.mem_map.mp member
          obtain ⟨place, bound, rfl⟩ := List.mem_iff_getElem.mp argMember
          obtain ⟨ids, each⟩ :=
            Ty.agrees_iff.mp (agreement _ (evaluate_apply_type slots id args))
          have within : place < known.slots.length := by
            rw [fits.complete, ← ids, ← complete]
            exact bound
          obtain ⟨other, present, otherFull⟩ :=
            Ty.exists_slot?_of_isFullyBound full within
          obtain ⟨value, evaluated, valueFull⟩ := ih args[place] argMember
            (inner args[place] argMember)
            (fits.bound (Ty.mem_slots_of_slot? present)) otherFull
            (by
              intro value evaluated
              refine each place value other
                (Ty.slot?_eq_some_iff.mpr ?_) present
              rw [List.getElem?_map, List.getElem?_eq_getElem bound,
                Option.map_some, evaluated])
            (by
              intro position index found stands nested
              exact filled (place :: position) index found
                (at?_apply_cons.mpr ⟨_, List.getElem?_eq_getElem bound, stands⟩)
                (Ty.at?_cons_eq_some_iff.mpr ⟨other, present, nested⟩))
          rw [evaluated]
          exact valueFull

/-- Where a slot stands in a term, its content stands in the
value of the term. -/
theorem at?_evaluate {term : Term} {position : List Nat} {index : Nat}
    (stands : term.at? position = some (.slot index)) :
    ((term.evaluate catalog slots).bind fun value => value.at? position) =
      slots[index]?.join := by
  induction term generalizing position with
  | slot place =>
      cases position with
      | nil =>
          cases stands
          rw [evaluate_slot_type]
          exact Option.bind_fun_some _
      | cons _ _ => cases stands
  | closed ty => cases position <;> cases stands
  | apply id args ih =>
      cases position with
      | nil => cases stands
      | cons place position =>
          obtain ⟨arg, found, stands⟩ := at?_apply_cons.mp stands
          rw [evaluate_apply_type, Option.bind_some, Ty.at?, Ty.slot?,
            List.getElem?_map, found]
          exact ih arg (List.mem_of_getElem? found) stands

/-- Where the contents of the slots agree, the values of a term do. -/
theorem evaluate_agrees {others : List (Option Ty)}
    (agreement : ∀ (index : Nat) inner other, slots[index]?.join = some inner →
      others[index]?.join = some other → inner.Agrees other)
    {term : Term} {value valueOther : Ty}
    (evaluated : term.evaluate catalog slots = some value)
    (evaluatedOther : term.evaluate catalog others = some valueOther) :
    value.Agrees valueOther := by
  induction term generalizing value valueOther with
  | slot index =>
      rw [evaluate_slot_type] at evaluated evaluatedOther
      exact agreement index value valueOther evaluated evaluatedOther
  | closed ty =>
      cases evaluated
      cases evaluatedOther
      exact .refl ty
  | apply id args ih =>
      rw [evaluate_apply_type] at evaluated evaluatedOther
      cases evaluated
      cases evaluatedOther
      refine Ty.agrees_iff.mpr ⟨rfl, fun index inner other left right => ?_⟩
      have left := Ty.slot?_eq_some_iff.mp left
      have right := Ty.slot?_eq_some_iff.mp right
      rw [List.getElem?_map, Option.map_eq_some_iff] at left right
      obtain ⟨arg, found, left⟩ := left
      obtain ⟨argToo, foundToo, right⟩ := right
      cases found.symm.trans foundToo
      exact ih arg (List.mem_of_getElem? found) left right

end Types

end NominalTypes.Term
