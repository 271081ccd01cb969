import NominalTypes.Proofs.Ty.Sameness
import NominalTypes.Proofs.Ty.WellFormed

namespace NominalTypes.Ty

/-! Types that agree as far as both are known. -/

/-- The type at a position: from the top down, the slots through which
it is reached. -/
def at? : Ty → List Nat → Option Ty
  | ty, [] => some ty
  | ty, index :: position =>
      (ty.slot? index).bind fun inner => inner.at? position

@[simp] theorem at?_nil (ty : Ty) : ty.at? [] = some ty := rfl

theorem at?_cons_eq_some_iff {ty : Ty} {index : Nat} {position : List Nat}
    {nested : Ty} :
    ty.at? (index :: position) = some nested ↔
      ∃ inner, ty.slot? index = some inner ∧
        inner.at? position = some nested := by
  rw [at?, Option.bind_eq_some_iff]

theorem at?_append_iff {ty nested : Ty} {front back : List Nat} :
    ty.at? (front ++ back) = some nested ↔
      ∃ middle, ty.at? front = some middle ∧ middle.at? back = some nested := by
  induction front generalizing ty with
  | nil => simp
  | cons index front ih =>
      simp only [List.cons_append, at?_cons_eq_some_iff, ih]
      constructor
      · rintro ⟨inner, bound, middle, found, nested⟩
        exact ⟨middle, ⟨inner, bound, found⟩, nested⟩
      · rintro ⟨middle, ⟨inner, bound, found⟩, nested⟩
        exact ⟨inner, bound, middle, found, nested⟩

theorem exists_slot?_of_beq {first second : Ty}
    (same : (first == second) = true) {index : Nat} {inner : Ty}
    (bound : first.slot? index = some inner) :
    ∃ other, second.slot? index = some other ∧ (inner == other) = true := by
  have equal := ((beq_iff _ _).mp same).2.2 index
  rcases sameSlot_iff.mp equal with
    ⟨left, _⟩ | ⟨content, other, left, right, equal⟩
  · cases left.symm.trans bound
  · cases left.symm.trans bound
    exact ⟨other, right, equal⟩

/-- Equal types hold equal types at every position. -/
theorem exists_at?_of_beq {first second : Ty} (same : (first == second) = true)
    {position : List Nat} {inner : Ty}
    (found : first.at? position = some inner) :
    ∃ other, second.at? position = some other ∧ (inner == other) = true := by
  induction position generalizing first second with
  | nil =>
      cases found
      exact ⟨second, rfl, same⟩
  | cons index position ih =>
      obtain ⟨nested, bound, found⟩ := at?_cons_eq_some_iff.mp found
      obtain ⟨nestedOther, boundOther, same⟩ := exists_slot?_of_beq same bound
      obtain ⟨other, foundOther, same⟩ := ih same found
      exact ⟨other, at?_cons_eq_some_iff.mpr ⟨nestedOther, boundOther,
        foundOther⟩, same⟩

/-- What every nested type inherits from the type in which it is bound holds at
all positions. -/
theorem holds_at? (property : Ty → Prop)
    (inherits : ∀ ty inner, property ty → some inner ∈ ty.slots →
      property inner)
    {ty nested : Ty} {position : List Nat} (holds : property ty)
    (found : ty.at? position = some nested) : property nested := by
  induction position generalizing ty with
  | nil =>
      cases found
      exact holds
  | cons index position ih =>
      obtain ⟨inner, bound, found⟩ := at?_cons_eq_some_iff.mp found
      exact ih (inherits ty inner holds (mem_slots_of_slot? bound)) found

theorem WellFormed.at? {catalog : Catalog} {ty nested : Ty}
    {position : List Nat} (wellFormed : ty.WellFormed catalog)
    (found : ty.at? position = some nested) : nested.WellFormed catalog :=
  holds_at? (WellFormed catalog) (fun _ _ holds member => holds.bound member)
    wellFormed found

/-- At every position where both types are bound, they have the
same identity. -/
def Agrees (first second : Ty) : Prop :=
  ∀ position inner other, first.at? position = some inner →
    second.at? position = some other →
    inner.id = other.id

theorem agrees_iff {first second : Ty} :
    first.Agrees second ↔ first.id = second.id ∧
      ∀ index inner other, first.slot? index = some inner →
        second.slot? index = some other →
        inner.Agrees other := by
  constructor
  · intro agreement
    refine ⟨agreement [] first second rfl rfl, ?_⟩
    intro index inner other left right position nested counterpart
      found foundOther
    exact agreement (index :: position) nested counterpart
      (at?_cons_eq_some_iff.mpr ⟨inner, left, found⟩)
      (at?_cons_eq_some_iff.mpr ⟨other, right, foundOther⟩)
  · rintro ⟨ids, each⟩ position nested counterpart found foundOther
    cases position with
    | nil =>
        cases found
        cases foundOther
        exact ids
    | cons index position =>
        obtain ⟨inner, left, found⟩ := at?_cons_eq_some_iff.mp found
        obtain ⟨other, right, foundOther⟩ := at?_cons_eq_some_iff.mp foundOther
        exact each index inner other left right position nested counterpart
          found foundOther

theorem Agrees.refl (ty : Ty) : ty.Agrees ty := by
  intro position inner other found foundOther
  cases found.symm.trans foundOther
  rfl

theorem Agrees.symm {first second : Ty} (agreement : first.Agrees second) :
    second.Agrees first :=
  fun position inner other found foundOther =>
    (agreement position other inner foundOther found).symm

theorem Agrees.at? {first second inner other : Ty}
    (agreement : first.Agrees second) {position : List Nat}
    (found : first.at? position = some inner)
    (foundOther : second.at? position = some other) : inner.Agrees other := by
  induction position generalizing first second with
  | nil =>
      cases found
      cases foundOther
      exact agreement
  | cons index position ih =>
      obtain ⟨nested, left, found⟩ := at?_cons_eq_some_iff.mp found
      obtain ⟨nestedOther, right, foundOther⟩ :=
        at?_cons_eq_some_iff.mp foundOther
      exact ih ((agrees_iff.mp agreement).2 index nested nestedOther left right)
        found foundOther

theorem agrees_of_beq {first second : Ty} (same : (first == second) = true) :
    first.Agrees second := by
  induction first generalizing second with
  | mk id name slots handle ih =>
      obtain ⟨ids, _, each⟩ := (beq_iff _ _).mp same
      refine agrees_iff.mpr ⟨ids, fun index inner other left right => ?_⟩
      have equal := each index
      rw [left, right] at equal
      exact ih inner (mem_slots_of_slot? left) equal

theorem Agrees.trans_beq {first second third : Ty}
    (agreement : first.Agrees second) (same : (second == third) = true) :
    first.Agrees third := by
  intro position inner other found foundOther
  obtain ⟨middle, foundMiddle, equal⟩ :=
    exists_at?_of_beq (BEq.symm same) foundOther
  exact (agreement position inner middle found foundMiddle).trans
    ((beq_iff _ _).mp equal).1.symm

theorem isFullyBound_iff (ty : Ty) :
    ty.isFullyBound = true ↔ ∀ slot ∈ ty.slots, slotFullyBound slot = true := by
  cases ty
  rw [isFullyBound, slotsFullyBound_eq_all, List.all_eq_true]

theorem isFullyBound_at? {ty nested : Ty} {position : List Nat}
    (full : ty.isFullyBound = true) (found : ty.at? position = some nested) :
    nested.isFullyBound = true :=
  holds_at? (fun ty => ty.isFullyBound = true)
    (fun ty _ holds member => (isFullyBound_iff ty).mp holds _ member) full found

theorem exists_slot?_of_isFullyBound {ty : Ty} (full : ty.isFullyBound = true)
    {index : Nat} (bound : index < ty.slots.length) :
    ∃ inner, ty.slot? index = some inner ∧ inner.isFullyBound = true := by
  have whole := (isFullyBound_iff ty).mp full _ (List.getElem_mem bound)
  cases content : ty.slots[index] with
  | none =>
      rw [content] at whole
      cases whole
  | some inner =>
      rw [content] at whole
      exact ⟨inner, slot?_eq_some_iff.mpr (by
        rw [List.getElem?_eq_getElem bound, content]), whole⟩

/-- Types of one catalog that agree and have no unbound slot are the same. -/
theorem beq_of_agrees {catalog : Catalog} {first second : Ty}
    (agreement : first.Agrees second) (wellFormed : first.WellFormed catalog)
    (otherWellFormed : second.WellFormed catalog)
    (full : first.isFullyBound = true)
    (otherFull : second.isFullyBound = true) : (first == second) = true := by
  induction first generalizing second with
  | mk id name slots handle ih =>
      obtain ⟨ids, inside⟩ := agrees_iff.mp agreement
      have lengths : slots.length = second.slots.length := by
        rw [otherWellFormed.complete, ← ids]
        exact wellFormed.complete
      refine (beq_iff _ _).mpr ⟨ids, lengths, fun index => sameSlot_iff.mpr ?_⟩
      by_cases bound : index < slots.length
      · obtain ⟨inner, left, innerFull⟩ :=
          exists_slot?_of_isFullyBound full bound
        obtain ⟨other, right, fullOther⟩ :=
          exists_slot?_of_isFullyBound otherFull (lengths ▸ bound)
        refine .inr ⟨inner, other, left, right,
          ih inner (mem_slots_of_slot? left)
          (inside index inner other left right) ?_ ?_ innerFull fullOther⟩
        · exact wellFormed.bound (mem_slots_of_slot? left)
        · exact otherWellFormed.bound (mem_slots_of_slot? right)
      · have outside : slots.length ≤ index := Nat.le_of_not_lt bound
        have outsideOther : second.slots.length ≤ index := lengths ▸ outside
        exact .inl ⟨by simp [slot?, outside], by simp [slot?, outsideOther]⟩

end NominalTypes.Ty
