import NominalTypes.Proofs.Registry.Runs
import NominalTypes.Proofs.Renaming.Catalog

namespace NominalTypes

/-! Declarations without the handles of the closed types in them.  Nothing that
is computed from declarations depends on handles. -/

def Term.bare (term : Term) : Term := term.rename fun id => id

def Parent.bare (parent : Parent) : Parent := parent.rename fun id => id

@[simp] theorem Parent.id_bare (parent : Parent) :
    parent.bare.id = parent.id := rfl

def ParentTypes.bare (parents : ParentTypes) : ParentTypes :=
  parents.rename fun id => id

def Declaration.bare (declaration : Declaration) : Declaration :=
  { declaration with
    superclass := declaration.superclass.map Parent.bare
    interfaces := declaration.interfaces.map Parent.bare }

namespace Catalog

def bare (catalog : Catalog) : Catalog :=
  { catalog with declarations := catalog.declarations.map Declaration.bare }

theorem declaration?_bare (catalog : Catalog) (id : TypeId) :
    catalog.bare.declaration? id =
      (catalog.declaration? id).map Declaration.bare := by
  cases id with
  | zero => rfl
  | succ index => exact Array.getElem?_map

theorem renames_bare (catalog : Catalog) :
    catalog.Renames (fun id => id) catalog.bare := by
  refine ⟨fun _ _ same => same, Array.size_map, ?_, ?_, ?_, ?_, ?_, ?_, ?_⟩
  · intro id
    rw [contains, contains, declaration?_bare, Option.isSome_map]
  all_goals
    intro id
    first
    | rw [name, name, declaration?_bare]
    | rw [kind, kind, declaration?_bare]
    | rw [arity, arity, declaration?_bare]
    | rw [params, params, declaration?_bare]
    | rw [superclass, superclass, declaration?_bare]
    | rw [interfaces, interfaces, declaration?_bare]
    cases catalog.declaration? id <;> rfl

section Names

variable (catalog : Catalog) (id : TypeId)

@[simp] theorem contains_bare :
    catalog.bare.contains id = catalog.contains id :=
  catalog.renames_bare.contains id

@[simp] theorem name_bare : catalog.bare.name id = catalog.name id :=
  catalog.renames_bare.name id

@[simp] theorem kind_bare : catalog.bare.kind id = catalog.kind id :=
  catalog.renames_bare.kind id

@[simp] theorem arity_bare : catalog.bare.arity id = catalog.arity id :=
  catalog.renames_bare.arity id

@[simp] theorem superclass_bare :
    catalog.bare.superclass id = (catalog.superclass id).map Parent.bare :=
  catalog.renames_bare.superclass id

@[simp] theorem describeParent_bare (parent : Parent) :
    catalog.bare.describeParent id parent.bare =
      catalog.describeParent id parent :=
  catalog.renames_bare.describeParent id parent

end Names

theorem parentTypes_bare (catalog : Catalog) (ty : Ty) :
    catalog.bare.parentTypes ty.bare = (catalog.parentTypes ty).bare :=
  catalog.renames_bare.parentTypes ty

theorem bare_add (catalog : Catalog) (declaration : Declaration) :
    (catalog.add declaration).bare = catalog.bare.add declaration.bare := by
  simp only [bare, add, Array.map_push]

theorem bare_update (catalog : Catalog) (id : TypeId)
    {change changeBare : Declaration → Declaration}
    (same : ∀ declaration, (change declaration).bare =
      changeBare declaration.bare) :
    (catalog.update id change).bare = catalog.bare.update id changeBare := by
  cases id with
  | zero => rfl
  | succ index =>
      have declarations :
          (catalog.declarations.modify index change).map Declaration.bare =
            (catalog.declarations.map Declaration.bare).modify index
                changeBare := by
        apply Array.ext_getElem?
        intro place
        rw [Array.getElem?_map, Array.getElem?_modify, Array.getElem?_modify,
          Array.getElem?_map]
        split
        · cases catalog.declarations[place]? with
          | none => rfl
          | some declaration => exact congrArg some (same declaration)
        · rfl
      simp only [bare, update, declarations]

theorem bare_putSuperclass (catalog : Catalog) (id : TypeId) (parent : Parent) :
    (catalog.putSuperclass id parent).bare =
      catalog.bare.putSuperclass id parent.bare :=
  catalog.bare_update id fun _ => rfl

theorem bare_appendInterface (catalog : Catalog) (id : TypeId)
    (parent : Parent) :
    (catalog.appendInterface id parent).bare =
      catalog.bare.appendInterface id parent.bare := by
  refine catalog.bare_update id fun declaration => ?_
  simp only [Declaration.bare, List.map_append, List.map_singleton]

theorem checkHead_bare (catalog : Catalog) (target : TypeId) (found : Nat) :
    Term.checkHead catalog.bare target found =
      Term.checkHead catalog target found := by
  simp only [Term.checkHead, contains_bare, arity_bare, name_bare]

theorem check_bare (catalog : Catalog) (owner : TypeId) (term : Term) :
    term.bare.check catalog.bare owner = term.check catalog owner := by
  induction term with
  | slot index =>
      rw [Term.bare, Term.rename_slot, Term.check, Term.check,
        arity_bare, name_bare]
  | closed ty => rfl
  | apply id args ih =>
      have all : Term.checkAll catalog.bare owner (args.map Term.bare) =
          Term.checkAll catalog owner args := by
        induction args with
        | nil => rfl
        | cons arg rest ihRest =>
            rw [List.map_cons, Term.checkAll, Term.checkAll,
              ih arg List.mem_cons_self, ihRest fun later member =>
                ih later (List.mem_cons_of_mem _ member)]
      rw [Term.bare, Term.rename_apply, Term.check, Term.check, List.length_map,
        checkHead_bare]
      exact congrArg (fun rest => Term.checkHead catalog id args.length >>=
        fun _ => rest) all

theorem checkParent_bare (catalog : Catalog) (owner : TypeId)
    (parent : Parent) :
    catalog.bare.checkParent owner parent.bare =
      catalog.checkParent owner parent := by
  have check := catalog.check_bare owner (.apply parent.id parent.args)
  rw [Term.bare, Term.rename_apply] at check
  have derives : catalog.bare.derives parent.id owner =
      catalog.derives parent.id owner :=
    catalog.renames_bare.derives parent.id owner
  simp only [checkParent, contains_bare, name_bare, Parent.id_bare,
    derives, ← check]
  rfl

end Catalog

namespace Registry

def bare (registry : Registry) :
    Registry := { registry with catalog := registry.catalog.bare }

theorem declare_bare (registry : Registry) (kind : Kind) (name : String)
    (params : List String) :
    registry.bare.declare kind name params =
      ((registry.declare kind name params).1,
        (registry.declare kind name params).2.bare) := by
  have size : registry.bare.catalog.size = registry.catalog.size :=
    Array.size_map
  simp only [declare, size]
  simp only [bare, Catalog.bare_add]
  rfl

theorem setSuperclass_bare (registry : Registry) (owner : TypeId)
    (parent : Parent) :
    registry.bare.setSuperclass owner parent.bare =
      (registry.setSuperclass owner parent).map bare := by
  have advanced :
      registry.bare.advance
          (registry.bare.catalog.putSuperclass owner parent.bare) =
        (registry.advance
          (registry.catalog.putSuperclass owner parent)).bare := by
    simp only [advance, bare, ← Catalog.bare_putSuperclass]
    rfl
  simp only [setSuperclass, advanced]
  simp only [bare, Catalog.checkParent_bare, Catalog.kind_bare,
    Catalog.name_bare, Catalog.superclass_bare, Parent.id_bare]
  cases registry.catalog.checkParent owner parent with
  | error error => rfl
  | ok =>
      by_cases isInterface : registry.catalog.kind parent.id = .interfaceType
      · simp [isInterface, Except.map, bind, Except.bind, throw, throwThe,
          MonadExceptOf.throw]
      · cases registry.catalog.superclass owner with
        | none =>
            simp [isInterface, Except.map, bind, Except.bind, pure,
              Except.pure, bare]
        | some existing =>
            simp [isInterface, Except.map, bind, Except.bind, throw, throwThe,
              MonadExceptOf.throw]

theorem addInterface_bare (registry : Registry) (owner : TypeId)
    (parent : Parent) :
    registry.bare.addInterface owner parent.bare =
      (registry.addInterface owner parent).map bare := by
  have advanced :
      registry.bare.advance
          (registry.bare.catalog.appendInterface owner parent.bare) =
        (registry.advance
          (registry.catalog.appendInterface owner parent)).bare := by
    simp only [advance, bare, ← Catalog.bare_appendInterface]
    rfl
  simp only [addInterface, advanced]
  simp only [bare, Catalog.checkParent_bare]
  cases registry.catalog.checkParent owner parent <;> rfl

end Registry

end NominalTypes
