import NominalTypes.Inference.Basic
import NominalTypes.Proofs.Hierarchy.Ancestors
import NominalTypes.Proofs.Renaming.Ty

namespace NominalTypes

/-! Catalogs that declare the same under other identities.  Whatever is computed
from one is computed from the other, under the other identities. -/

section Declared

variable (σ : TypeId → TypeId)

namespace Term

mutual

def rename : Term → Term
  | .slot index => .slot index
  | .closed ty => .closed (ty.rename σ)
  | .apply id args => .apply (σ id) (renameAll args)

def renameAll : List Term → List Term
  | [] => []
  | arg :: rest => arg.rename :: renameAll rest

end

theorem renameAll_eq_map (args : List Term) :
    renameAll σ args = args.map (rename σ) := by
  induction args with
  | nil => rfl
  | cons arg rest ih => rw [renameAll, ih, List.map_cons]

@[simp] theorem rename_slot (index : Nat) :
    (slot index).rename σ = .slot index := by
  rw [rename]

@[simp] theorem rename_closed (ty : Ty) :
    (closed ty).rename σ = .closed (ty.rename σ) := by
  rw [rename]

@[simp] theorem rename_apply (id : TypeId) (args : List Term) :
    (apply id args).rename σ = .apply (σ id) (args.map (rename σ)) := by
  rw [rename, renameAll_eq_map]

theorem describeAll_eq_map (catalog : Catalog) (params : List String)
    (args : List Term) :
    describeAll catalog params args = args.map (describe catalog params) := by
  induction args with
  | nil => rfl
  | cons arg rest ih => rw [describeAll, ih, List.map_cons]

end Term

def Parent.rename (parent : Parent) : Parent :=
  ⟨σ parent.id, parent.args.map (Term.rename σ)⟩

def Step.rename (step : Step) : Step := ⟨step.edge, step.parent.rename σ⟩

@[simp] theorem Step.ranks_rename (steps : List Step) :
    Step.ranks (steps.map (Step.rename σ)) = Step.ranks steps := by
  rw [Step.ranks, List.map_map]
  rfl

def ParentTypes.rename (parents : ParentTypes) : ParentTypes :=
  ⟨parents.superclass.map (Ty.rename σ), parents.interfaces.map (Ty.rename σ)⟩

theorem ParentTypes.toList_rename (parents : ParentTypes) :
    (parents.rename σ).toList = parents.toList.map (Ty.rename σ) := by
  rw [toList, toList, List.map_append, rename, Option.toList_map]

theorem ParentTypes.along?_rename (parents : ParentTypes) (edge : Edge) :
    (parents.rename σ).along? edge =
      (parents.along? edge).map (Ty.rename σ) := by
  cases edge with
  | superclass => rfl
  | interface index => exact List.getElem?_map

end Declared

/-- The second catalog declares under `σ id` what the first one
declares under `id`. -/
structure Catalog.Renames (σ : TypeId → TypeId)
    (first second : Catalog) : Prop where
  injective : Function.Injective σ
  size : second.size = first.size
  contains : ∀ id, second.contains (σ id) = first.contains id
  name : ∀ id, second.name (σ id) = first.name id
  kind : ∀ id, second.kind (σ id) = first.kind id
  arity : ∀ id, second.arity (σ id) = first.arity id
  params : ∀ id, second.params (σ id) = first.params id
  superclass : ∀ id, second.superclass (σ id) =
    (first.superclass id).map (Parent.rename σ)
  interfaces : ∀ id, second.interfaces (σ id) =
    (first.interfaces id).map (Parent.rename σ)

/-- A function on what stands in slots that goes along with the renaming of
what is applied. -/
structure SlotRenaming {α : Type} [SlotAlgebra α] (σ : TypeId → TypeId)
    (first second : Catalog) (image : α → α) : Prop where
  unbound : image SlotAlgebra.unbound = SlotAlgebra.unbound
  ofType : ∀ ty, image (SlotAlgebra.ofType ty) =
    SlotAlgebra.ofType (ty.rename σ)
  apply : ∀ id args, image (SlotAlgebra.apply first id args) =
    SlotAlgebra.apply second (σ id) (args.map image)

namespace SlotRenaming

variable {α : Type} [SlotAlgebra α] {σ : TypeId → TypeId}
  {first second : Catalog} {image : α → α}
  (follows : SlotRenaming σ first second image)

include follows

theorem evaluate (slots : List α) (term : Term) :
    (term.rename σ).evaluate second (slots.map image) =
      image (term.evaluate first slots) := by
  induction term with
  | slot index =>
      rw [Term.rename_slot, Term.evaluate_slot, Term.evaluate_slot,
        List.getElem?_map]
      cases slots[index]? with
      | none => exact follows.unbound.symm
      | some _ => rfl
  | closed ty =>
      rw [Term.rename_closed]
      exact (follows.ofType ty).symm
  | apply id args ih =>
      rw [Term.rename_apply, Term.evaluate_apply, Term.evaluate_apply,
        follows.apply, List.map_map, List.map_map]
      exact congrArg _ (List.map_congr_left ih)

theorem evaluateAll (slots : List α) (args : List Term) :
    Term.evaluateAll second (slots.map image) (args.map (Term.rename σ)) =
      (Term.evaluateAll first slots args).map image := by
  rw [Term.evaluateAll_eq_map, Term.evaluateAll_eq_map, List.map_map,
    List.map_map]
  exact List.map_congr_left fun arg _ => follows.evaluate slots arg

theorem slotsAlong (slots : List α) (steps : List Step) :
    second.slotsAlong (slots.map image) (steps.map (Step.rename σ)) =
      (first.slotsAlong slots steps).map image := by
  induction steps generalizing slots with
  | nil => rfl
  | cons step rest ih =>
      simp only [Catalog.slotsAlong, List.map_cons, List.foldl_cons] at ih ⊢
      rw [Step.rename, Parent.rename, follows.evaluateAll, ih]

end SlotRenaming

namespace Catalog.Renames

variable {σ : TypeId → TypeId} {first second : Catalog}
  (renames : first.Renames σ second)

include renames

theorem types : SlotRenaming σ first second (Option.map (Ty.rename σ)) := by
  refine ⟨rfl, fun _ => rfl, fun id args => ?_⟩
  change some (Ty.rename σ _) = some _
  rw [Ty.rename_mk, renames.name]

theorem steps (id : TypeId) :
    second.steps (σ id) = (first.steps id).map (Step.rename σ) := by
  have interfaces :
      ((first.interfaces id).map (Parent.rename σ)).mapIdx (fun index parent =>
        Step.mk (.interface index) parent) =
        ((first.interfaces id).mapIdx fun index parent =>
          Step.mk (.interface index) parent).map (Step.rename σ) := by
    apply List.ext_getElem?
    intro index
    simp [Step.rename, Function.comp_def]
  rw [Catalog.steps, Catalog.steps, renames.superclass, renames.interfaces,
    List.map_append, interfaces, Option.map_map, ← Option.toList_map,
    Option.map_map]
  rfl

/-! Ways up. -/

theorem chain {origin target : TypeId} {steps : List Step}
    (chain : first.Chain origin steps target) :
    second.Chain (σ origin) (steps.map (Step.rename σ)) (σ target) := by
  induction chain with
  | nil id => exact .nil (σ id)
  | cons declared above ih =>
      refine .cons ?_ ih
      rw [renames.steps]
      exact List.mem_map_of_mem declared

theorem exists_chain {origin image : TypeId} {images : List Step}
    (chain : second.Chain (σ origin) images image) :
    ∃ steps target, first.Chain origin steps target ∧
      images = steps.map (Step.rename σ) ∧
      image = σ target := by
  induction images generalizing origin with
  | nil =>
      cases chain
      exact ⟨[], origin, .nil origin, rfl, rfl⟩
  | cons step rest ih =>
      cases chain with
      | cons declared above =>
          rw [renames.steps] at declared
          obtain ⟨original, original_declared, rfl⟩ := List.mem_map.mp declared
          obtain ⟨steps, target, chain, rfl, rfl⟩ := ih above
          exact ⟨original :: steps, target,
            .cons original_declared chain, rfl, rfl⟩

theorem firstChain {origin target : TypeId} {steps : List Step}
    (isFirst : first.FirstChain origin steps target) :
    second.FirstChain (σ origin) (steps.map (Step.rename σ)) (σ target) := by
  refine ⟨renames.chain isFirst.chain, fun image chain => ?_⟩
  obtain ⟨other, arrival, chain, rfl, arrived⟩ := renames.exists_chain chain
  obtain rfl := renames.injective arrived
  rcases isFirst.first other chain with rfl | earlier
  · exact .inl rfl
  · refine .inr ?_
    rwa [Step.Earlier, Step.ranks_rename, Step.ranks_rename]

theorem path (origin target : TypeId) :
    second.path (σ origin) (σ target) =
      (first.path origin target).map (List.map (Step.rename σ)) := by
  cases found : first.path origin target with
  | some steps =>
      exact path_eq_some_iff.mpr
        (renames.firstChain (path_eq_some_iff.mp found))
  | none =>
      refine Option.eq_none_iff_forall_ne_some.mpr fun images foundToo => ?_
      obtain ⟨steps, arrival, chain, _, arrived⟩ :=
        renames.exists_chain (path_chain foundToo)
      obtain rfl := renames.injective arrived
      obtain ⟨first, present⟩ := exists_path chain.derivesFrom
      cases found.symm.trans present

theorem derives (id ancestor : TypeId) :
    second.derives (σ id) (σ ancestor) = first.derives id ancestor := by
  rw [Catalog.derives, Catalog.derives, renames.path, Option.isSome_map]

/-! Views. -/

theorem substitute (slots : List (Option Ty)) (parent : Parent) :
    second.substitute (slots.map (Option.map (Ty.rename σ))) (parent.rename σ) =
      (first.substitute slots parent).rename σ := by
  have args := renames.types.evaluateAll slots parent.args
  rw [Catalog.substitute, Catalog.substitute, Parent.rename, Ty.rename_mk,
    renames.name, args]

theorem parentTypes (ty : Ty) :
    second.parentTypes (ty.rename σ) = (first.parentTypes ty).rename σ := by
  rw [Catalog.parentTypes, Catalog.parentTypes, ParentTypes.rename,
    Ty.id_rename, Ty.slots_rename, renames.superclass, renames.interfaces,
    List.map_map, List.map_map, Option.map_map,
    Option.map_map]
  have each : second.substitute (ty.slots.map (Option.map (Ty.rename σ))) ∘
        Parent.rename σ =
      Ty.rename σ ∘ first.substitute ty.slots :=
    funext fun parent => renames.substitute ty.slots parent
  rw [each]

theorem ascend (ty : Ty) (steps : List Step) :
    second.ascend (ty.rename σ) (steps.map (Step.rename σ)) =
      (first.ascend ty steps).rename σ := by
  induction steps using List.reverseRecOn with
  | nil => rfl
  | append_singleton steps step ih =>
      rw [List.map_append, List.map_singleton, ascend_append_singleton,
        ascend_append_singleton, ih, Ty.slots_rename, Step.rename,
        renames.substitute]

theorem viewAs (ty : Ty) (target : TypeId) :
    second.viewAs (ty.rename σ) (σ target) =
      (first.viewAs ty target).map (Ty.rename σ) := by
  have path := renames.path ty.id target
  cases found : first.path ty.id target with
  | none =>
      rw [found, Option.map_none] at path
      simp [Catalog.viewAs, found, path]
  | some steps =>
      rw [found, Option.map_some, ← Ty.id_rename σ ty] at path
      rw [viewAs_eq_ascend found, viewAs_eq_ascend path, renames.ascend,
        Option.map_some]

theorem ancestors (ty : Ty) :
    second.ancestors (ty.rename σ) =
      (first.ancestors ty).map (Ty.rename σ) := by
  rw [ancestors_eq_visits, ancestors_eq_visits, renames.size]
  refine visits_map Ty.id _ Ty.id _ (Ty.rename σ) renames.injective
    (fun _ => True)
    (fun ty _ => Ty.id_rename σ ty) ?_ (fun _ _ _ _ => trivial) _ ?_ [ty]
    (fun _ _ => trivial)
  · intro ty _
    rw [renames.parentTypes, ParentTypes.toList_rename]
  · intro id
    rw [mem_insert_iff, mem_insert_iff, Ty.id_rename, renames.injective.eq_iff]
    simp

/-! Texts. -/

omit renames in
theorem clause_rename (keyword : String) (types : List Ty) :
    clause keyword (types.map (Ty.rename σ)) = clause keyword types := by
  rw [clause, clause, List.isEmpty_map, List.map_map]
  simp only [Function.comp_def, Ty.brief_rename]

omit renames in
theorem describeWithParents_rename (kind : Kind) (ty : Ty)
    (parents : ParentTypes) :
    describeWithParents kind (ty.rename σ) (parents.rename σ) =
      describeWithParents kind ty parents := by
  cases kind <;>
    simp [describeWithParents, ParentTypes.rename, Option.toList_map,
      clause_rename, Ty.brief_rename]

theorem fullDescription (ty : Ty) :
    second.fullDescription (ty.rename σ) = first.fullDescription ty := by
  rw [Catalog.fullDescription, Catalog.fullDescription, renames.parentTypes,
    Ty.id_rename, renames.kind, describeWithParents_rename]

theorem describe (params : List String) (term : Term) :
    (term.rename σ).describe second params = term.describe first params := by
  induction term with
  | slot index => rfl
  | closed ty => exact Ty.brief_rename σ ty
  | apply id args ih =>
      rw [Term.rename_apply, Term.describe, Term.describe, renames.name,
        Term.describeAll_eq_map, Term.describeAll_eq_map, List.map_map]
      exact congrArg _ (congrArg _ (List.map_congr_left ih))

theorem describeParent (owner : TypeId) (parent : Parent) :
    second.describeParent (σ owner) (parent.rename σ) =
      first.describeParent owner parent := by
  rw [Catalog.describeParent, Catalog.describeParent, renames.params,
    ← renames.describe, Term.rename_apply]
  rfl

theorem describeDeclaration (id : TypeId) :
    second.describeDeclaration (σ id) = first.describeDeclaration id := by
  have interfaces :
      (first.interfaces id).map (second.describeParent (σ id) ∘ Parent.rename σ) =
        (first.interfaces id).map (first.describeParent id) :=
    List.map_congr_left fun parent _ => renames.describeParent id parent
  simp only [Catalog.describeDeclaration, renames.kind, renames.superclass,
    renames.interfaces, renames.name, renames.params, Option.isNone_map,
    List.isEmpty_map, List.map_map, interfaces]
  cases first.superclass id with
  | none => rfl
  | some parent => simp only [Option.map_some, renames.describeParent]

end Catalog.Renames

end NominalTypes
