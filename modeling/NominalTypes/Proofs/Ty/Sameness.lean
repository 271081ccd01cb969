import NominalTypes.Ty

namespace NominalTypes.Ty

/-! Comparison of types slot by slot. -/

theorem slot?_eq_some_iff {ty : Ty} {index : Nat} {inner : Ty} :
    ty.slot? index = some inner ↔ ty.slots[index]? = some (some inner) := by
  simp [slot?, Option.join_eq_some_iff]

theorem slot?_of_lt {ty : Ty} {index : Nat} (bound : index < ty.slots.length) :
    ty.slot? index = ty.slots[index] := by
  rw [slot?, List.getElem?_eq_getElem bound, Option.join_some]

theorem mem_slots_of_slot? {ty : Ty} {index : Nat} {inner : Ty}
    (bound : ty.slot? index = some inner) : some inner ∈ ty.slots :=
  List.mem_of_getElem? (slot?_eq_some_iff.mp bound)

theorem beq_iff_id_slots (first second : Ty) :
    (first == second) = true ↔
      first.id = second.id ∧ sameSlots first.slots second.slots = true := by
  cases first
  change same _ _ = true ↔ _
  simp [same]

theorem sameSlots_iff (slots others : List (Option Ty)) :
    sameSlots slots others = true ↔
      slots.length = others.length ∧
        ∀ index : Nat,
          sameSlot slots[index]?.join others[index]?.join = true := by
  induction slots generalizing others with
  | nil =>
      cases others with
      | nil => simp [sameSlots, sameSlot]
      | cons other others => simp [sameSlots]
  | cons slot slots ih =>
      cases others with
      | nil => simp [sameSlots]
      | cons other others =>
          rw [sameSlots, Bool.and_eq_true, ih, List.length_cons,
            List.length_cons, Nat.add_right_cancel_iff]
          constructor
          · rintro ⟨first, lengths, rest⟩
            refine ⟨lengths, fun index => ?_⟩
            cases index with
            | zero => simpa using first
            | succ index => simpa using rest index
          · rintro ⟨lengths, all⟩
            exact ⟨by simpa using all 0, lengths, fun index => by
              simpa using all (index + 1)⟩

theorem beq_iff (first second : Ty) :
    (first == second) = true ↔
      first.id = second.id ∧ first.slots.length = second.slots.length ∧
        ∀ index, sameSlot (first.slot? index) (second.slot? index) = true := by
  rw [beq_iff_id_slots, sameSlots_iff]
  rfl

theorem sameSlot_iff {first second : Option Ty} :
    sameSlot first second = true ↔
      first = none ∧ second = none ∨
        ∃ inner other, first = some inner ∧ second = some other ∧
          (inner == other) = true := by
  cases first <;> cases second <;> simp [sameSlot, BEq.beq]

private theorem beq_self (ty : Ty) : (ty == ty) = true := by
  induction ty with
  | mk id name slots handle ih =>
      refine (beq_iff _ _).mpr ⟨rfl, rfl, fun index => ?_⟩
      cases bound : slot? ⟨id, name, slots, handle⟩ index with
      | none => rfl
      | some inner => exact ih inner (mem_slots_of_slot? bound)

private theorem beq_comm_of (first : Ty) :
    ∀ second, (first == second) = true → (second == first) = true := by
  induction first with
  | mk id name slots handle ih =>
      intro second same
      obtain ⟨ids, lengths, each⟩ := (beq_iff _ _).mp same
      refine (beq_iff _ _).mpr ⟨ids.symm, lengths.symm, fun index => ?_⟩
      rcases sameSlot_iff.mp (each index) with
        ⟨left, right⟩ | ⟨inner, other, left, right, equal⟩
      · exact sameSlot_iff.mpr (.inl ⟨right, left⟩)
      · exact sameSlot_iff.mpr (.inr ⟨other, inner, right, left,
          ih inner (mem_slots_of_slot? left) other equal⟩)

private theorem beq_trans_of (first : Ty) :
    ∀ second third, (first == second) = true → (second == third) = true →
      (first == third) = true := by
  induction first with
  | mk id name slots handle ih =>
      intro second third same next
      obtain ⟨ids, lengths, each⟩ := (beq_iff _ _).mp same
      obtain ⟨nextIds, nextLengths, eachNext⟩ := (beq_iff _ _).mp next
      refine (beq_iff _ _).mpr ⟨ids.trans nextIds, lengths.trans nextLengths,
        fun index => ?_⟩
      rcases sameSlot_iff.mp (each index) with
        ⟨left, right⟩ | ⟨inner, other, left, right, equal⟩
      · rcases sameSlot_iff.mp (eachNext index) with
          ⟨_, last⟩ | ⟨_, _, middle, _⟩
        · exact sameSlot_iff.mpr (.inl ⟨left, last⟩)
        · rw [right] at middle
          cases middle
      · rcases sameSlot_iff.mp (eachNext index) with
          ⟨middle, _⟩ | ⟨_, last, middle, found, equalNext⟩
        · rw [right] at middle
          cases middle
        · rw [right] at middle
          cases middle
          exact sameSlot_iff.mpr (.inr ⟨inner, last, left, found,
            ih inner (mem_slots_of_slot? left) other last equal equalNext⟩)

instance : EquivBEq Ty where
  rfl := beq_self _
  symm := beq_comm_of _ _
  trans := beq_trans_of _ _ _

theorem beq_of_slot?_eq {first second : Ty} (ids : first.id = second.id)
    (lengths : first.slots.length = second.slots.length)
    (equal : ∀ index, first.slot? index = second.slot? index) :
    (first == second) = true := by
  refine (beq_iff _ _).mpr ⟨ids, lengths, fun index => ?_⟩
  rw [equal index]
  cases second.slot? index with
  | none => rfl
  | some inner =>
      exact sameSlot_iff.mpr (.inr ⟨inner, inner, rfl, rfl, BEq.rfl⟩)

end NominalTypes.Ty
