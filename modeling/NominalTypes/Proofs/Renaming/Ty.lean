import NominalTypes.Proofs.Ty.Sameness

namespace NominalTypes.Ty

/-! Types under other identities.  Names, and what depends on nothing else than
names, stay as they are. -/

section Rename

variable (σ : TypeId → TypeId)

mutual

/-- The type with renamed identities at every depth, and without handles. -/
def rename : Ty → Ty
  | ⟨id, name, slots, _⟩ => ⟨σ id, name, renameSlots slots, none⟩

def renameSlots : List (Option Ty) → List (Option Ty)
  | [] => []
  | slot :: slots => renameSlot slot :: renameSlots slots

def renameSlot : Option Ty → Option Ty
  | none => none
  | some ty => some ty.rename

end

theorem renameSlot_eq_map (slot : Option Ty) :
    renameSlot σ slot = slot.map (rename σ) := by
  cases slot <;> rfl

theorem renameSlots_eq_map (slots : List (Option Ty)) :
    renameSlots σ slots = slots.map (Option.map (rename σ)) := by
  induction slots with
  | nil => rfl
  | cons slot slots ih => rw [renameSlots, renameSlot_eq_map, ih, List.map_cons]

theorem rename_mk (id : TypeId) (name : String) (slots : List (Option Ty))
    (handle : Option Nat) :
    rename σ ⟨id, name, slots, handle⟩ =
      ⟨σ id, name, slots.map (Option.map (rename σ)), none⟩ := by
  rw [rename, renameSlots_eq_map]

@[simp] theorem id_rename (ty : Ty) : (ty.rename σ).id = σ ty.id := by
  cases ty
  rw [rename_mk]

@[simp] theorem name_rename (ty : Ty) : (ty.rename σ).name = ty.name := by
  cases ty
  rw [rename_mk]

@[simp] theorem slots_rename (ty : Ty) :
    (ty.rename σ).slots = ty.slots.map (Option.map (rename σ)) := by
  cases ty
  rw [rename_mk]

@[simp] theorem slot?_rename (ty : Ty) (index : Nat) :
    (ty.rename σ).slot? index = (ty.slot? index).map (rename σ) := by
  rw [slot?, slot?, slots_rename, List.getElem?_map]
  cases ty.slots[index]? <;> rfl

theorem rename_rename (τ : TypeId → TypeId) (ty : Ty) :
    (ty.rename σ).rename τ = ty.rename (τ ∘ σ) := by
  induction ty with
  | mk id name slots handle ih =>
      rw [rename_mk, rename_mk, rename_mk, List.map_map]
      congr 1
      refine List.map_congr_left fun slot member => ?_
      cases slot with
      | none => rfl
      | some inner => exact congrArg some (ih inner member)

theorem brief_rename (ty : Ty) : (ty.rename σ).brief = ty.brief := by
  induction ty with
  | mk id name slots handle ih =>
      rw [rename_mk, brief, brief, briefSlots_eq_map, briefSlots_eq_map,
        List.map_map]
      congr 2
      refine List.map_congr_left fun slot member => ?_
      cases slot with
      | none => rfl
      | some inner => exact ih inner member

theorem signature_rename (ty : Ty) :
    (ty.rename σ).signature = ty.signature := by
  induction ty with
  | mk id name slots handle ih =>
      have inside : (slots.map (Option.map (rename σ))).map signatureSlot =
          slots.map signatureSlot := by
        rw [List.map_map]
        refine List.map_congr_left fun slot member => ?_
        cases slot with
        | none => rfl
        | some inner => exact ih inner member
      rw [rename_mk, signature, signature, signatureSlots_eq_join,
        signatureSlots_eq_join, inside, List.isEmpty_map]

theorem isFullyBound_rename (ty : Ty) :
    (ty.rename σ).isFullyBound = ty.isFullyBound := by
  induction ty with
  | mk id name slots handle ih =>
      rw [rename_mk, isFullyBound, isFullyBound, slotsFullyBound_eq_all,
        slotsFullyBound_eq_all, List.all_map]
      refine Bool.eq_iff_iff.mpr ?_
      rw [List.all_eq_true, List.all_eq_true]
      refine forall₂_congr fun slot member => ?_
      cases slot with
      | none => exact Iff.rfl
      | some inner => exact Bool.eq_iff_iff.mp (ih inner member)

variable {σ}

theorem beq_rename (injective : Function.Injective σ) (first second : Ty) :
    (first.rename σ == second.rename σ) = (first == second) := by
  induction first generalizing second with
  | mk id name slots handle ih =>
      rw [Bool.eq_iff_iff, beq_iff, beq_iff]
      refine and_congr (by simpa using injective.eq_iff)
        (and_congr (by simp) ?_)
      refine forall_congr' fun index => ?_
      rw [slot?_rename, slot?_rename]
      cases left : slot? ⟨id, name, slots, handle⟩ index with
      | none => cases slot? second index <;> rfl
      | some inner =>
          cases slot? second index with
          | none => rfl
          | some other =>
              exact Bool.eq_iff_iff.mp
                (ih inner (mem_slots_of_slot? left) other)

end Rename

/-- The value of a type, without the handles of its parts. -/
def bare (ty : Ty) : Ty := ty.rename fun id => id

theorem bare_eq (ty : Ty) :
    ty.bare = ⟨ty.id, ty.name, ty.slots.map (Option.map bare), none⟩ := by
  cases ty
  exact rename_mk _ _ _ _ _

@[simp] theorem bare_bare (ty : Ty) : ty.bare.bare = ty.bare :=
  rename_rename _ _ ty

@[simp] theorem brief_bare (ty : Ty) : ty.bare.brief = ty.brief :=
  ty.brief_rename _

@[simp] theorem isFullyBound_bare (ty : Ty) :
    ty.bare.isFullyBound = ty.isFullyBound :=
  ty.isFullyBound_rename _

theorem beq_bare (first second : Ty) :
    (first.bare == second.bare) = (first == second) :=
  beq_rename Function.injective_id first second

end NominalTypes.Ty
