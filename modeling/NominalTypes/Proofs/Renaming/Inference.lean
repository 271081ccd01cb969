import NominalTypes.Proofs.Inference.Findings
import NominalTypes.Proofs.Renaming.Catalog

namespace NominalTypes

/-! Inference under other identities. -/

variable {σ : TypeId → TypeId}

namespace Pattern

section Rename

variable (σ)

mutual

def rename : Pattern → Pattern
  | .var index => .var index
  | .unbound => .unbound
  | .closed ty => .closed (ty.rename σ)
  | .apply id args => .apply (σ id) (renameAll args)

def renameAll : List Pattern → List Pattern
  | [] => []
  | arg :: rest => arg.rename :: renameAll rest

end

theorem renameAll_eq_map (args : List Pattern) :
    renameAll σ args = args.map (rename σ) := by
  induction args with
  | nil => rfl
  | cons arg rest ih => rw [renameAll, ih, List.map_cons]

@[simp] theorem rename_apply (id : TypeId) (args : List Pattern) :
    (apply id args).rename σ = .apply (σ id) (args.map (rename σ)) := by
  rw [rename, renameAll_eq_map]

@[simp] theorem isOpen_rename (pattern : Pattern) :
    (pattern.rename σ).isOpen = pattern.isOpen := by
  cases pattern <;> simp [rename, isOpen]

theorem closed?_rename (pattern : Pattern) :
    (pattern.rename σ).closed? = pattern.closed?.map (Ty.rename σ) := by
  cases pattern <;> simp [rename, closed?]

end Rename

end Pattern

namespace Ty

theorem agrees_rename (injective : Function.Injective σ) (position : Position)
    (declared known : Ty) :
    (declared.rename σ).agrees position (known.rename σ) =
      declared.agrees position known := by
  induction declared generalizing position known with
  | mk id name slots handle ih =>
      have inside : ∀ count index known,
          slotsAgree name count index (slots.map (Option.map (rename σ)))
              (known.map (Option.map (rename σ))) =
            slotsAgree name count index slots known := by
        intro count index known
        induction slots generalizing index known with
        | nil => rfl
        | cons slot slots ihSlots =>
            cases known with
            | nil => rfl
            | cons knownSlot known =>
                have first :
                    slotAgrees ⟨name, index, count⟩ (slot.map (rename σ))
                        (knownSlot.map (rename σ)) =
                      slotAgrees ⟨name, index, count⟩ slot knownSlot := by
                  cases slot with
                  | none => rfl
                  | some inner =>
                      cases knownSlot with
                      | none => rfl
                      | some other => exact ih inner List.mem_cons_self _ other
                rw [List.map_cons, List.map_cons, slotsAgree, slotsAgree, first,
                  ihSlots fun inner member =>
                    ih inner (List.mem_cons_of_mem _ member)]
      have sameBrief :
          brief ⟨σ id, name, slots.map (Option.map (rename σ)), none⟩ =
            brief ⟨id, name, slots, handle⟩ := by
        rw [← rename_mk σ id name slots handle, brief_rename]
      rw [rename_mk, agrees, agrees, id_rename, slots_rename, inside,
        brief_rename, sameBrief, List.length_map]
      simp only [injective.eq_iff]

end Ty

/-- What is found for the parameters, under other identities. -/
abbrev Solution.rename (σ : TypeId → TypeId) (solution : Solution) : Solution :=
  solution.map (Option.map (Ty.rename σ))

theorem Solution.bind_rename (injective : Function.Injective σ)
    (solution : Solution) (target : Target) (index : Nat) (known : Ty) :
    (solution.rename σ).bind target index (known.rename σ) =
      (solution.bind target index known).map (Solution.rename σ) := by
  have before : (solution.rename σ)[index]?.join =
      solution[index]?.join.map (Ty.rename σ) := by
    rw [Solution.rename, List.getElem?_map]
    cases solution[index]? <;> rfl
  rw [Solution.bind, Solution.bind, before]
  cases solution[index]?.join with
  | none => simp [Solution.rename, Except.map, List.map_set]
  | some first =>
      simp only [Option.map_some, Ty.beq_rename injective, Ty.brief_rename]
      split <;> rfl

namespace Catalog.Renames

variable {first second : Catalog} (renames : first.Renames σ second)

include renames

theorem application (id : TypeId) (args : List Pattern) :
    (Pattern.application first id args).rename σ =
      Pattern.application second (σ id) (args.map (Pattern.rename σ)) := by
  have sameOpen : (args.map (Pattern.rename σ)).any Pattern.isOpen =
      args.any Pattern.isOpen := by
    simp [Function.comp_def]
  rw [Pattern.application, Pattern.application, sameOpen]
  split
  · exact Pattern.rename_apply σ id args
  · rw [Pattern.rename, Ty.rename_mk, renames.name, List.map_map, List.map_map]
    simp only [Function.comp_def, Pattern.closed?_rename]

theorem patterns : SlotRenaming σ first second (Pattern.rename σ) :=
  ⟨by rfl, fun _ => rfl, renames.application⟩

theorem viewPatterns (target : TypeId) (steps : List Step) :
    second.viewPatterns (σ target) (steps.map (Step.rename σ)) =
      (first.viewPatterns target steps).map (Pattern.rename σ) := by
  have vars : (List.range (first.arity target)).map Pattern.var =
      ((List.range (first.arity target)).map Pattern.var).map
          (Pattern.rename σ) := by
    rw [List.map_map]
    rfl
  rw [Catalog.viewPatterns, Catalog.viewPatterns, renames.arity, vars,
    renames.patterns.slotsAlong, ← vars]

theorem describePattern (params : List String) (pattern : Pattern) :
    (pattern.rename σ).describe second params =
      pattern.describe first params := by
  induction pattern with
  | var index => rfl
  | unbound => rfl
  | closed ty => exact Ty.brief_rename σ ty
  | apply id args ih =>
      rw [Pattern.rename_apply, Pattern.describe, Pattern.describe,
        renames.name, Pattern.describeAll_eq_map, Pattern.describeAll_eq_map,
        List.map_map]
      have same : args.map (Pattern.describe second params ∘ Pattern.rename σ) =
          args.map (Pattern.describe first params) := List.map_congr_left ih
      rw [same]

omit renames in
theorem matchAll_of (target : Target) {patterns : List Pattern}
    (each : ∀ pattern ∈ patterns, ∀ position solution known,
      (pattern.rename σ).matchWith second target position
          (Solution.rename σ solution) (known.map (Ty.rename σ)) =
        (pattern.matchWith first target position solution known).map
          (Solution.rename σ))
    (owner : String) (count index : Nat) (solution : Solution)
    (known : List (Option Ty)) :
    Pattern.matchAll second target owner count index (solution.rename σ)
        (patterns.map (Pattern.rename σ)) (known.map (Option.map (Ty.rename σ))) =
      (Pattern.matchAll first target owner count index solution patterns known).map
        (Solution.rename σ) := by
  induction patterns generalizing index solution known with
  | nil =>
      rw [List.map_nil, Pattern.matchAll, Pattern.matchAll] <;>
        simp [Except.map]
  | cons pattern patterns ih =>
      cases known with
      | nil => rfl
      | cons slot known =>
          rw [List.map_cons, List.map_cons, Pattern.matchAll, Pattern.matchAll,
            each pattern List.mem_cons_self]
          cases pattern.matchWith first target ⟨owner, index, count⟩ solution
            slot with
          | error error => rfl
          | ok extended =>
              exact ih
                (fun later member => each later (List.mem_cons_of_mem _ member))
                _ extended known

theorem matchWith (target : Target) (pattern : Pattern) (position : Position)
    (solution : Solution) (known : Option Ty) :
    (pattern.rename σ).matchWith second target position (solution.rename σ)
        (known.map (Ty.rename σ)) =
      (pattern.matchWith first target position solution known).map
        (Solution.rename σ) := by
  induction pattern generalizing position solution known with
  | var index =>
      cases known with
      | none => rfl
      | some known =>
          exact solution.bind_rename renames.injective target index known
  | unbound => cases known <;> rfl
  | closed ty =>
      cases known with
      | none => rfl
      | some known =>
          rw [Pattern.rename, Option.map_some, Pattern.matchWith,
            Pattern.matchWith, Ty.agrees_rename renames.injective]
          cases ty.agrees position known <;> rfl
  | apply id args ih =>
      cases known with
      | none => rw [Pattern.rename_apply]; rfl
      | some known =>
          have text :
              Pattern.describe second target.params (.apply (σ id) (args.map _)) =
                Pattern.describe first target.params (.apply id args) :=
            Pattern.rename_apply σ id args ▸
              renames.describePattern target.params (.apply id args)
          rw [Pattern.rename_apply, Option.map_some, Pattern.matchWith,
            Pattern.matchWith, Ty.id_rename, Ty.name_rename, Ty.slots_rename,
            Ty.brief_rename, List.length_map,
            matchAll_of target ih, text]
          simp only [renames.injective.eq_iff]
          split <;> rfl

theorem infer (known : Ty) {target : TypeId}
    (declared : first.contains target = true) :
    second.infer (known.rename σ) (σ target) =
      (first.infer known target).map (Ty.rename σ) := by
  rw [Catalog.infer, Catalog.infer, renames.contains, declared, Ty.id_rename,
    renames.path, renames.name, renames.params, renames.arity, Ty.name_rename,
    Ty.slots_rename, List.length_map]
  cases first.path target known.id with
  | none => rfl
  | some steps =>
      have start : List.replicate (first.arity target) none =
          Solution.rename σ (List.replicate (first.arity target) none) := by
        simp [Solution.rename]
      simp only [Option.map_some, renames.viewPatterns]
      rw [start, matchAll_of _ fun pattern _ =>
        renames.matchWith _ pattern, ← start]
      cases Pattern.matchAll first
          ⟨first.name target, first.params target⟩ known.name
          known.slots.length 0 (List.replicate (first.arity target) none)
          (first.viewPatterns target steps) known.slots with
      | error error => rfl
      | ok solution =>
          change Except.ok _ = Except.ok (Ty.rename σ _)
          rw [Ty.rename_mk]

end Catalog.Renames

end NominalTypes
