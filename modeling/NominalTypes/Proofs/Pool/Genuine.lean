import NominalTypes.Pool.Basic
import NominalTypes.Proofs.Inference.Outcome
import NominalTypes.Proofs.Renaming.Bare

namespace NominalTypes

/-! The types of a pool.  `values` are the values for which the handles of
the pool stand. -/

namespace Ty

/-- A part fits the catalog and is called as it is declared, and its handle
stands for its value. -/
structure GenuinePart (catalog : Catalog) (values : List Ty)
    (part : Ty) : Prop where
  declared : catalog.contains part.id = true
  complete : part.slots.length = catalog.arity part.id
  name : part.name = catalog.name part.id
  held : ∀ handle, part.handle = some handle → values[handle]? = some part.bare

def Genuine (catalog : Catalog) (values : List Ty) (ty : Ty) : Prop :=
  ty.Everywhere (GenuinePart catalog values)

namespace Genuine

variable {catalog : Catalog} {values : List Ty} {ty : Ty}

theorem wellFormed (genuine : ty.Genuine catalog values) :
    ty.WellFormed catalog :=
  (wellFormed_iff_everywhere catalog ty).mpr
    (genuine.imp fun _ part => ⟨part.declared, part.complete⟩)

theorem mono {after : Catalog} {more : List Ty}
    (extension : catalog.Extends after) (longer : values <+: more)
    (genuine : ty.Genuine catalog values) : ty.Genuine after more := by
  refine genuine.imp fun part holds =>
    ⟨extension.contains holds.declared, ?_, ?_, ?_⟩
  · exact holds.complete.trans (extension.arity holds.declared).symm
  · exact holds.name.trans (extension.name holds.declared).symm
  · intro handle has
    have found := holds.held handle has
    obtain ⟨rest, rfl⟩ := longer
    rw [List.getElem?_append_left (List.getElem?_eq_some_iff.mp found).1, found]

theorem slot? (genuine : ty.Genuine catalog values) {index : Nat} {inner : Ty}
    (bound : ty.slot? index = some inner) : inner.Genuine catalog values :=
  genuine.bound (mem_slots_of_slot? bound)

end Genuine

/-- Types of one catalog that are the same have the same value. -/
theorem bare_eq_of_beq {catalog : Catalog} {values : List Ty}
    {first second : Ty} (genuine : first.Genuine catalog values)
    (genuineToo : second.Genuine catalog values)
    (same : (first == second) = true) : first.bare = second.bare := by
  induction first generalizing second with
  | mk id name slots handle ih =>
      obtain ⟨ids, lengths, each⟩ := (beq_iff _ _).mp same
      have names : name = second.name := by
        rw [genuineToo.here.name, ← ids]
        exact genuine.here.name
      have inside : slots.map (Option.map bare) =
          second.slots.map (Option.map bare) := by
        refine List.ext_getElem (by simpa using lengths)
          fun index bound boundToo => ?_
        rw [List.length_map] at bound boundToo
        have left : slot? ⟨id, name, slots, handle⟩ index = slots[index] :=
          slot?_of_lt bound
        have right : slot? second index = second.slots[index] :=
          slot?_of_lt boundToo
        rw [List.getElem_map, List.getElem_map, ← left, ← right]
        rcases sameSlot_iff.mp (each index) with
          ⟨none, noneToo⟩ | ⟨inner, other, some, someToo, equal⟩
        · rw [none, noneToo]
        · rw [some, someToo]
          exact congrArg Option.some
            (ih inner (mem_slots_of_slot? some) (genuine.slot? some)
              (genuineToo.slot? someToo) equal)
      rw [bare_eq, bare_eq second, ← names, ← inside, ← ids]

end Ty

namespace Catalog

/-- The declared parents are sound, and the closed types in them are
types of the pool. -/
structure Genuine (catalog : Catalog) (values : List Ty) : Prop where
  sound : catalog.Sound
  closed : ∀ id, ∀ parent ∈ catalog.parents id,
    parent.term.AllClosed (Ty.Genuine catalog values)

variable {catalog : Catalog} {values : List Ty}
  (genuine : catalog.Genuine values)

include genuine

theorem Genuine.mono {more : List Ty} (longer : values <+: more) :
    catalog.Genuine more :=
  ⟨genuine.sound, fun id parent declared =>
    (genuine.closed id parent declared).imp fun _ =>
      .mono (.refl catalog) longer⟩

theorem Genuine.substitute {ty : Ty} (part : ty.Genuine catalog values)
    {parent : Parent} (declared : parent ∈ catalog.parents ty.id) :
    (catalog.substitute ty.slots parent).Genuine catalog values := by
  refine Term.evaluate_everywhere
    (genuine.sound.parent_wellFormed ty.id parent declared)
    (genuine.closed ty.id parent declared) (fun _ member => part.bound member)
    (fun _ _ declared complete => ⟨declared, complete, rfl, fun _ held => ?_⟩)
    (evaluate_term ty.slots parent)
  cases held

theorem Genuine.parentTypes {ty : Ty} (part : ty.Genuine catalog values) :
    ∀ parent ∈ (catalog.parentTypes ty).toList,
      parent.Genuine catalog values := by
  intro parent member
  rw [toList_parentTypes] at member
  obtain ⟨step, declared, rfl⟩ := List.mem_map.mp member
  exact genuine.substitute part (parent_mem_of_mem_steps declared)

/-- Everything in an inferred type is taken from the known one. -/
theorem Genuine.infer {known result : Ty} {target : TypeId}
    (part : known.Genuine catalog values)
    (inferred : catalog.infer known target = .ok result) :
    result.Genuine catalog values := by
  obtain ⟨declared, steps, path⟩ := path_of_infer_eq_ok inferred
  obtain ⟨solution, _, built⟩ :=
    (infer_eq_ok_iff path declared result).mp inferred
  have found := inferred_of_infer genuine.sound path inferred
  refine .mk ⟨found.id ▸ declared, found.id ▸ found.complete, ?_, ?_⟩ ?_
  · rw [built]
  · rw [built]
    nofun
  · intro inner member
    obtain ⟨index, bound⟩ := List.mem_iff_getElem?.mp member
    obtain ⟨position, _, nested⟩ :=
      found.fromKnown index inner (Ty.slot?_eq_some_iff.mpr bound)
    exact part.at? nested

end Catalog

/-! Taking a type into the pool gives handles to its new parts, and changes
nothing else. -/

namespace Ty

variable {catalog : Catalog}

theorem slotsWithHandles_genuine {slots : List (Option Ty)}
    (each : ∀ inner,
      some inner ∈ slots → ∀ values : List Ty, inner.Genuine catalog values →
      ∃ more, values <+: more ∧
        (inner.withHandles values.length).2 = more.length ∧
        (inner.withHandles values.length).1.Genuine catalog more ∧
        (inner.withHandles values.length).1.bare = inner.bare)
    (values : List Ty)
    (genuine : ∀ inner, some inner ∈ slots → inner.Genuine catalog values) :
    ∃ more, values <+: more ∧
      (slotsWithHandles values.length slots).2 = more.length ∧
      (∀ inner, some inner ∈ (slotsWithHandles values.length slots).1 →
        inner.Genuine catalog more) ∧
      (slotsWithHandles values.length slots).1.map (Option.map bare) =
        slots.map (Option.map bare) := by
  induction slots generalizing values with
  | nil => exact ⟨values, List.prefix_rfl, rfl, nofun, rfl⟩
  | cons slot slots ih =>
      have later := fun inner member =>
        each inner (List.mem_cons_of_mem slot member)
      cases slot with
      | none =>
          obtain ⟨more, longer, next, kept, same⟩ :=
            ih later values fun inner member =>
              genuine inner (List.mem_cons_of_mem none member)
          refine ⟨more, longer, next, fun inner member => ?_,
            congrArg (List.cons none) same⟩
          rcases List.mem_cons.mp member with absurd | member
          · cases absurd
          · exact kept inner member
      | some first =>
          obtain ⟨between, longer, next, keptFirst, sameFirst⟩ :=
            each first List.mem_cons_self values
              (genuine first List.mem_cons_self)
          obtain ⟨more, longerToo, last, kept, same⟩ :=
            ih later between fun inner member =>
              (genuine inner (List.mem_cons_of_mem _ member)).mono
                (.refl catalog) longer
          rw [slotsWithHandles, slotWithHandles]
          simp only [next]
          refine ⟨more, longer.trans longerToo, last,
            fun inner member => ?_, ?_⟩
          · rcases List.mem_cons.mp member with equality | member
            · cases equality
              exact keptFirst.mono (.refl catalog) longerToo
            · exact kept inner member
          · rw [List.map_cons, List.map_cons, same, Option.map_some, sameFirst]
            rfl

theorem withHandles_genuine {ty : Ty} {values : List Ty}
    (genuine : ty.Genuine catalog values) :
    ∃ more, values <+: more ∧ (ty.withHandles values.length).2 = more.length ∧
      (ty.withHandles values.length).1.Genuine catalog more ∧
      (ty.withHandles values.length).1.bare = ty.bare := by
  induction ty generalizing values with
  | mk id name slots handle ih =>
      cases handle with
      | some handle => exact ⟨values, List.prefix_rfl, rfl, genuine, rfl⟩
      | none =>
          obtain ⟨more, longer, next, kept, same⟩ := slotsWithHandles_genuine
            (fun inner member values genuine => ih inner member genuine) values
            fun inner member => genuine.bound member
          -- The slots get their handles first, so the value of the type itself
          -- comes after theirs.
          have value : bare ⟨id, name, (slotsWithHandles values.length slots).1,
                some more.length⟩ =
              bare ⟨id, name, slots, none⟩ := by
            rw [bare_eq, bare_eq]
            simp only [same]
          have appended : more <+: more ++ [bare ⟨id, name, slots, none⟩] :=
            List.prefix_append _ _
          rw [withHandles]
          simp only [next]
          refine ⟨more ++ [bare ⟨id, name, slots, none⟩],
            longer.trans appended, by simp,
            .mk ⟨genuine.here.declared, ?_, genuine.here.name, ?_⟩
              fun inner member => ?_, value⟩
          · have lengths := congrArg List.length same
            rw [List.length_map, List.length_map] at lengths
            exact lengths.trans genuine.here.complete
          · rintro handle ⟨⟩
            rw [value, List.getElem?_concat_length]
          · exact (kept inner member).mono (.refl catalog) appended

end Ty

end NominalTypes
