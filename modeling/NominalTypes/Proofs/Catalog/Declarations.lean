import NominalTypes.Catalog.Basic

namespace NominalTypes.Catalog

/-! What a catalog says of an identity once a declaration is
added or changed. -/

theorem contains_iff (catalog : Catalog) (id : TypeId) :
    catalog.contains id = true ↔ 0 < id ∧ id ≤ catalog.size := by
  cases id with
  | zero => simp [contains]
  | succ index =>
      simp only [contains, declaration?_succ, size, Option.isSome_iff_exists,
        Array.getElem?_eq_some_iff]
      constructor
      · rintro ⟨_, bound, _⟩
        exact ⟨Nat.succ_pos index, bound⟩
      · rintro ⟨_, bound⟩
        exact ⟨_, bound, rfl⟩

theorem mem_ids_iff (catalog : Catalog) (id : TypeId) :
    id ∈ catalog.ids ↔ catalog.contains id = true := by
  rw [contains_iff, ids, List.mem_range'_1, Nat.add_comm 1, Nat.lt_succ_iff]
  exact Iff.rfl

theorem contains_of_declaration? {catalog : Catalog} {id : TypeId}
    {declaration : Declaration}
    (declared : catalog.declaration? id = some declaration) :
    catalog.contains id = true := by
  simp [contains, declared]

theorem declaration?_of_contains {catalog : Catalog} {id : TypeId}
    (declared : catalog.contains id = true) :
    ∃ declaration, catalog.declaration? id = some declaration :=
  Option.isSome_iff_exists.mp declared

@[simp] theorem declaration?_empty (unknownName : TypeId → String)
    (id : TypeId) : (empty unknownName).declaration? id = none := by
  cases id <;> simp [empty]

theorem declaration?_add (catalog : Catalog) (declaration : Declaration)
    (id : TypeId) :
    (catalog.add declaration).declaration? id =
      if id = catalog.size + 1 then some declaration
        else catalog.declaration? id := by
  cases id with
  | zero => simp
  | succ index => simp [add, size, Array.getElem?_push]

theorem declaration?_update (catalog : Catalog) (id other : TypeId)
    (change : Declaration → Declaration) :
    (catalog.update id change).declaration? other =
      if other = id then (catalog.declaration? other).map change
      else catalog.declaration? other := by
  cases id with
  | zero => cases other <;> simp [update]
  | succ index =>
      cases other with
      | zero => simp [update]
      | succ place =>
          simp only [update, declaration?_succ, Array.getElem?_modify,
            Nat.succ_inj, eq_comm (a := index)]

@[simp] theorem declaration?_generation (catalog : Catalog) (generation : Nat)
    (id : TypeId) :
    { catalog with generation := generation }.declaration? id =
      catalog.declaration? id := by
  cases id <;> rfl

/-- All the declared parents of an identity, the superclass before
the interfaces. -/
def parents (catalog : Catalog) (id : TypeId) : List Parent :=
  (catalog.superclass id).toList ++ catalog.interfaces id

@[simp] theorem parents_empty (unknownName : TypeId → String) (id : TypeId) :
    (empty unknownName).parents id = [] := by
  simp [parents, superclass, interfaces]

theorem map_parent_steps (catalog : Catalog) (id : TypeId) :
    (catalog.steps id).map Step.parent = catalog.parents id := by
  have interfaces : ((catalog.interfaces id).mapIdx fun index parent =>
      Step.mk (.interface index) parent).map Step.parent =
          catalog.interfaces id := by
    apply List.ext_getElem?
    intro index
    cases found : (catalog.interfaces id)[index]? <;> simp [found]
  rw [steps, List.map_append, parents, interfaces]
  cases catalog.superclass id <;> rfl

theorem steps_eq_nil_of_not_contains {catalog : Catalog} {id : TypeId}
    (undeclared : catalog.contains id = false) : catalog.steps id = [] := by
  have missing : catalog.declaration? id = none := by
    simpa [contains] using undeclared
  simp [steps, superclass, interfaces, missing]

theorem declaration?_size_succ (catalog : Catalog) :
    catalog.declaration? (catalog.size + 1) = none := by
  simp [size]

section Adding

variable (catalog : Catalog) {declaration : Declaration}

theorem superclass_add (rootless : declaration.superclass = none)
    (id : TypeId) :
    (catalog.add declaration).superclass id = catalog.superclass id := by
  rw [superclass, superclass, declaration?_add]
  by_cases equality : id = catalog.size + 1
  · subst id
    rw [if_pos rfl, declaration?_size_succ]
    exact rootless
  · simp [equality]

theorem interfaces_add (rootless : declaration.interfaces = []) (id : TypeId) :
    (catalog.add declaration).interfaces id = catalog.interfaces id := by
  rw [interfaces, interfaces, declaration?_add]
  by_cases equality : id = catalog.size + 1
  · subst id
    rw [if_pos rfl, declaration?_size_succ]
    exact rootless
  · simp [equality]

theorem parents_add (noSuperclass : declaration.superclass = none)
    (noInterfaces : declaration.interfaces = []) (id : TypeId) :
    (catalog.add declaration).parents id = catalog.parents id := by
  rw [parents, parents, superclass_add catalog noSuperclass,
    interfaces_add catalog noInterfaces]

end Adding

section Linking

variable (catalog : Catalog) (owner : TypeId) (parent : Parent)

theorem superclass_putSuperclass (id : TypeId) :
    (catalog.putSuperclass owner parent).superclass id =
      if id = owner ∧ catalog.contains owner = true then some parent
      else catalog.superclass id := by
  rw [superclass, superclass, putSuperclass, declaration?_update]
  by_cases equality : id = owner
  · subst id
    cases declared : catalog.declaration? owner <;> simp [contains, declared]
  · simp [equality]

theorem interfaces_putSuperclass (id : TypeId) :
    (catalog.putSuperclass owner parent).interfaces id =
      catalog.interfaces id := by
  rw [interfaces, interfaces, putSuperclass, declaration?_update]
  by_cases equality : id = owner
  · subst id
    cases catalog.declaration? owner <;> simp
  · simp [equality]

theorem superclass_appendInterface (id : TypeId) :
    (catalog.appendInterface owner parent).superclass id =
      catalog.superclass id := by
  rw [superclass, superclass, appendInterface, declaration?_update]
  by_cases equality : id = owner
  · subst id
    cases catalog.declaration? owner <;> simp
  · simp [equality]

theorem interfaces_appendInterface (id : TypeId) :
    (catalog.appendInterface owner parent).interfaces id =
      if id = owner ∧ catalog.contains owner = true then
        catalog.interfaces id ++ [parent]
      else catalog.interfaces id := by
  rw [interfaces, interfaces, appendInterface, declaration?_update]
  by_cases equality : id = owner
  · subst id
    cases declared : catalog.declaration? owner <;> simp [contains, declared]
  · simp [equality]

theorem mem_parents_putSuperclass (declared : catalog.contains owner = true)
    (free : catalog.superclass owner = none) (id : TypeId)
    (candidate : Parent) :
    candidate ∈ (catalog.putSuperclass owner parent).parents id ↔
      candidate ∈ catalog.parents id ∨ id = owner ∧ candidate = parent := by
  rw [parents, parents, superclass_putSuperclass, interfaces_putSuperclass]
  by_cases equality : id = owner
  · subst id
    simp [declared, free, or_comm]
  · simp [equality]

theorem mem_parents_appendInterface (declared : catalog.contains owner = true)
    (id : TypeId) (candidate : Parent) :
    candidate ∈ (catalog.appendInterface owner parent).parents id ↔
      candidate ∈ catalog.parents id ∨ id = owner ∧ candidate = parent := by
  rw [parents, parents, superclass_appendInterface, interfaces_appendInterface]
  by_cases equality : id = owner
  · subst id
    simp [declared, or_assoc]
  · simp [equality]

end Linking

section Generation

variable (catalog : Catalog) (generation : Nat) (id : TypeId)

@[simp] theorem superclass_generation :
    { catalog with generation := generation }.superclass id =
      catalog.superclass id := by
  simp [superclass]

@[simp] theorem parents_generation :
    { catalog with generation := generation }.parents id =
      catalog.parents id := by
  simp [parents, superclass, interfaces]

@[simp] theorem arity_generation :
    { catalog with generation := generation }.arity id = catalog.arity id := by
  simp [arity]

end Generation

/-- What is said of a declared identity besides its parents. -/
def SameHead (first second : Declaration) : Prop :=
  second.kind = first.kind ∧ second.name = first.name ∧
    second.arity = first.arity ∧
    second.params = first.params

/-- Everything declared before is still declared, and only its parents may
have changed. -/
def Extends (before after : Catalog) : Prop :=
  ∀ id declaration, before.declaration? id = some declaration →
    ∃ later, after.declaration? id = some later ∧ SameHead declaration later

namespace Extends

variable {before after : Catalog}

theorem refl (catalog : Catalog) : Extends catalog catalog :=
  fun _ declaration declared => ⟨declaration, declared, rfl, rfl, rfl, rfl⟩

theorem contains (extension : Extends before after) {id : TypeId}
    (declared : before.contains id = true) : after.contains id = true := by
  obtain ⟨declaration, found⟩ := declaration?_of_contains declared
  obtain ⟨_, later, _⟩ := extension id declaration found
  exact contains_of_declaration? later

theorem name (extension : Extends before after) {id : TypeId}
    (declared : before.contains id = true) :
    after.name id = before.name id := by
  obtain ⟨declaration, found⟩ := declaration?_of_contains declared
  obtain ⟨_, later, _, same, _⟩ := extension id declaration found
  simp [Catalog.name, found, later, same]

theorem arity (extension : Extends before after) {id : TypeId}
    (declared : before.contains id = true) :
    after.arity id = before.arity id := by
  obtain ⟨declaration, found⟩ := declaration?_of_contains declared
  obtain ⟨_, later, _, _, same, _⟩ := extension id declaration found
  simp [Catalog.arity, found, later, same]

theorem params (extension : Extends before after) {id : TypeId}
    (declared : before.contains id = true) :
    after.params id = before.params id := by
  obtain ⟨declaration, found⟩ := declaration?_of_contains declared
  obtain ⟨_, later, _, _, _, same⟩ := extension id declaration found
  simp [Catalog.params, found, later, same]

theorem kind (extension : Extends before after) {id : TypeId}
    (declared : before.contains id = true) :
    after.kind id = before.kind id := by
  obtain ⟨declaration, found⟩ := declaration?_of_contains declared
  obtain ⟨_, later, same, _⟩ := extension id declaration found
  simp [Catalog.kind, found, later, same]

end Extends

theorem Extends.generation {before after : Catalog}
    (extension : Extends before after) (generation : Nat) :
    Extends before { after with generation := generation } := by
  intro id declaration declared
  rw [declaration?_generation]
  exact extension id declaration declared

theorem extends_add (catalog : Catalog) (declaration : Declaration) :
    Extends catalog (catalog.add declaration) := by
  intro id known declared
  have bound :=
    ((contains_iff catalog id).mp (contains_of_declaration? declared)).2
  have old : id ≠ catalog.size + 1 := Nat.ne_of_lt (Nat.lt_succ_of_le bound)
  exact ⟨known, by rw [declaration?_add, if_neg old, declared], rfl,
    rfl, rfl, rfl⟩

section Update

variable (catalog : Catalog) (owner : TypeId) (parent : Parent)

private theorem extends_update (change : Declaration → Declaration)
    (keeps : ∀ declaration, SameHead declaration (change declaration)) :
    Extends catalog (catalog.update owner change) := by
  intro id known declared
  rw [declaration?_update, declared]
  split
  · exact ⟨change known, rfl, keeps known⟩
  · exact ⟨known, rfl, rfl, rfl, rfl, rfl⟩

private theorem arity_update (change : Declaration → Declaration)
    (keeps : ∀ declaration, SameHead declaration (change declaration))
    (id : TypeId) :
    (catalog.update owner change).arity id = catalog.arity id := by
  rw [arity, arity, declaration?_update]
  cases catalog.declaration? id with
  | none => simp
  | some declaration =>
      by_cases equality : id = owner
      · simpa [equality] using (keeps declaration).2.2.1
      · simp [equality]

theorem size_update (change : Declaration → Declaration) :
    (catalog.update owner change).size = catalog.size := by
  cases owner with
  | zero => rfl
  | succ index => exact Array.size_modify

theorem unknownName_update (change : Declaration → Declaration) :
    (catalog.update owner change).unknownName = catalog.unknownName := by
  cases owner <;> rfl

theorem extends_putSuperclass :
    Extends catalog (catalog.putSuperclass owner parent) :=
  extends_update catalog owner _ fun _ => ⟨rfl, rfl, rfl, rfl⟩

theorem extends_appendInterface :
    Extends catalog (catalog.appendInterface owner parent) :=
  extends_update catalog owner _ fun _ => ⟨rfl, rfl, rfl, rfl⟩

theorem arity_putSuperclass (id : TypeId) :
    (catalog.putSuperclass owner parent).arity id = catalog.arity id := by
  apply arity_update
  exact fun _ => ⟨rfl, rfl, rfl, rfl⟩

theorem arity_appendInterface (id : TypeId) :
    (catalog.appendInterface owner parent).arity id = catalog.arity id := by
  apply arity_update
  exact fun _ => ⟨rfl, rfl, rfl, rfl⟩

end Update

end NominalTypes.Catalog
