import NominalTypes.Proofs.Registry.Validation

namespace NominalTypes

/-! Registries that grow call by call. -/

/-- A call that may change a registry. -/
inductive Change where
  | declare (kind : Kind) (name : String) (params : List String)
  | setSuperclass (owner : TypeId) (parent : Parent)
  | addInterface (owner : TypeId) (parent : Parent)

/-- The closed types that a call hands over are types of the catalog. -/
def Change.ClosedIn (catalog : Catalog) : Change → Prop
  | .declare .. => True
  | .setSuperclass _ parent => parent.term.AllClosed (Ty.WellFormed catalog)
  | .addInterface _ parent => parent.term.AllClosed (Ty.WellFormed catalog)

/-- The closed types that a call hands over have the property. -/
def Change.AllClosed (property : Ty → Prop) : Change → Prop
  | .declare .. => True
  | .setSuperclass _ parent => parent.term.AllClosed property
  | .addInterface _ parent => parent.term.AllClosed property

theorem Change.closedIn_iff {catalog : Catalog} {change : Change} :
    change.ClosedIn catalog ↔ change.AllClosed (Ty.WellFormed catalog) := by
  cases change with
  | declare => exact Iff.rfl
  | setSuperclass => exact Iff.rfl
  | addInterface => exact Iff.rfl

theorem Change.AllClosed.imp {change : Change} {first second : Ty → Prop}
    (implies : ∀ ty, first ty → second ty) (closed : change.AllClosed first) :
    change.AllClosed second := by
  cases change with
  | declare => trivial
  | setSuperclass => exact Term.AllClosed.imp implies closed
  | addInterface => exact Term.AllClosed.imp implies closed

namespace Registry

/-- The registry after a call.  A call that is refused leaves it as it is. -/
def apply (registry : Registry) : Change → Registry
  | .declare kind name params => (registry.declare kind name params).2
  | .setSuperclass owner parent =>
    match registry.setSuperclass owner parent with
    | .ok linked => linked
    | .error _ => registry
  | .addInterface owner parent =>
    match registry.addInterface owner parent with
    | .ok linked => linked
    | .error _ => registry

/-- The registry after calls that are made one after the other, from an
empty registry on. -/
def run (changes : List Change) : Registry := changes.foldl apply empty

/-- The registries that calls lead to when every closed type is one of the
registry to which it is handed. -/
inductive Reachable : Registry → Prop
  | empty : Reachable empty
  | apply {registry : Registry} (change : Change)
      (reachable : Reachable registry)
      (closed : change.ClosedIn registry.catalog) :
      Reachable (registry.apply change)

theorem run_induction {motive : Registry → Prop} {changes : List Change}
    (start : motive empty)
    (step : ∀ registry, ∀ change ∈ changes, motive registry →
      motive (registry.apply change)) :
    motive (run changes) := by
  have along : ∀ registry, motive registry →
      motive (changes.foldl apply registry) := by
    induction changes with
    | nil => exact fun _ holds => holds
    | cons change rest ih =>
        intro registry holds
        refine ih (fun registry later member => ?_) _
          (step registry change List.mem_cons_self holds)
        exact step registry later (List.mem_cons_of_mem change member)
  exact along empty start

/-- Calls without closed types lead only to reachable registries. -/
theorem reachable_run {changes : List Change}
    (closed : ∀ change ∈ changes, ∀ catalog, change.ClosedIn catalog) :
    (run changes).Reachable :=
  run_induction .empty fun registry change member reachable =>
    .apply change reachable (closed change member registry.catalog)

end Registry

namespace Collections

/-! A small registry.  A grid is a map from its rows to lists of them, and says
nothing of its columns.  A twin is a map from a type to the same type. -/

def registry : Registry :=
  Registry.run
    [.declare .interfaceType "List" ["E"],
      .declare .interfaceType "Map" ["K", "V"], .declare .classType "String" [],
      .declare .classType "Grid" ["R", "C"],
      .declare .classType "Twin" ["T"],
      .addInterface 4 ⟨2, [.slot 0, .apply 1 [.slot 0]]⟩,
      .addInterface 5 ⟨2, [.slot 0, .slot 0]⟩]

/-- No closed types are handed over. -/
theorem exists_changes : ∃ changes, registry = Registry.run changes ∧
    ∀ change ∈ changes, ∀ property, change.AllClosed property := by
  refine ⟨_, rfl, fun change member property => ?_⟩
  simp only [List.mem_cons, List.not_mem_nil, or_false] at member
  rcases member with rfl | rfl | rfl | rfl | rfl | rfl | rfl
  iterate 5 exact trivial
  · exact .apply (by simp [Term.AllClosed.slot, Term.AllClosed.apply])
  · exact .apply (by simp [Term.AllClosed.slot])

theorem reachable : registry.Reachable := by
  obtain ⟨changes, same, closed⟩ := exists_changes
  rw [same]
  exact Registry.reachable_run fun change member _ =>
    Change.closedIn_iff.mpr (closed change member _)

def list (element : Option Ty) : Ty := ⟨1, "List", [element], none⟩

def map (key value : Option Ty) : Ty := ⟨2, "Map", [key, value], none⟩

def string : Ty := ⟨3, "String", [], none⟩

def grid (row column : Option Ty) : Ty := ⟨4, "Grid", [row, column], none⟩

def twin (type : Option Ty) : Ty := ⟨5, "Twin", [type], none⟩

end Collections

/-! What one call can do. -/

/-- The second catalog is the first one with one more parent, which
was accepted. -/
structure Catalog.Linked (before after : Catalog) (owner : TypeId)
    (parent : Parent) : Prop where
  accepted : before.checkParent owner parent = .ok ()
  extension : before.Extends after
  arity : ∀ id, after.arity id = before.arity id
  mem_parents_iff : ∀ id candidate, candidate ∈ after.parents id ↔
    candidate ∈ before.parents id ∨ id = owner ∧ candidate = parent
  superclass : ∀ id candidate, after.superclass id = some candidate →
    before.superclass id = some candidate ∨
      candidate = parent ∧ before.kind parent.id = .classType

namespace Registry

variable {registry after : Registry} {owner : TypeId} {parent : Parent}

theorem linked_of_setSuperclass
    (accepted : registry.setSuperclass owner parent = .ok after) :
    registry.catalog.Linked after.catalog owner parent := by
  obtain ⟨checked, isClass, free, rfl⟩ :=
    (setSuperclass_eq_ok_iff registry owner parent after).mp accepted
  have declared :=
    ((registry.catalog.checkParent_eq_ok_iff owner parent).mp checked).1
  refine ⟨checked, ?_, ?_, ?_, ?_⟩
  · exact (Catalog.extends_putSuperclass _ owner parent).generation _
  · intro id
    rw [advance, Catalog.arity_generation]
    exact Catalog.arity_putSuperclass _ owner parent id
  · intro id candidate
    rw [advance, Catalog.parents_generation]
    exact Catalog.mem_parents_putSuperclass _ owner parent declared free
      id candidate
  · intro id candidate found
    rw [advance, Catalog.superclass_generation,
      Catalog.superclass_putSuperclass] at found
    split at found
    · exact .inr ⟨(Option.some.inj found).symm, isClass⟩
    · exact .inl found

theorem linked_of_addInterface
    (accepted : registry.addInterface owner parent = .ok after) :
    registry.catalog.Linked after.catalog owner parent := by
  obtain ⟨checked, rfl⟩ :=
    (addInterface_eq_ok_iff registry owner parent after).mp accepted
  have declared :=
    ((registry.catalog.checkParent_eq_ok_iff owner parent).mp checked).1
  refine ⟨checked, ?_, ?_, ?_, ?_⟩
  · exact (Catalog.extends_appendInterface _ owner parent).generation _
  · intro id
    rw [advance, Catalog.arity_generation]
    exact Catalog.arity_appendInterface _ owner parent id
  · intro id candidate
    rw [advance, Catalog.parents_generation]
    exact Catalog.mem_parents_appendInterface _ owner parent declared
      id candidate
  · intro id candidate found
    rw [advance, Catalog.superclass_generation,
      Catalog.superclass_appendInterface] at found
    exact .inl found

/-- A call does nothing, adds a declaration without parents, or
links one parent. -/
theorem apply_cases (registry : Registry) (change : Change) :
    registry.apply change = registry ∨
      (∃ kind name params, (registry.apply change).catalog =
        registry.catalog.add ⟨kind, name, params.length, params, none, []⟩) ∨
      ∃ owner parent,
        registry.catalog.Linked (registry.apply change).catalog owner parent ∧
        ∀ property, change.AllClosed property ↔
          parent.term.AllClosed property := by
  cases change with
  | declare kind name params => exact .inr (.inl ⟨kind, name, params, rfl⟩)
  | setSuperclass owner parent =>
      cases outcome : registry.setSuperclass owner parent with
      | error _ => exact .inl (by simp [apply, outcome])
      | ok linked =>
          refine .inr (.inr ⟨owner, parent, ?_, fun _ => Iff.rfl⟩)
          simpa only [apply, outcome] using linked_of_setSuperclass outcome
  | addInterface owner parent =>
      cases outcome : registry.addInterface owner parent with
      | error _ => exact .inl (by simp [apply, outcome])
      | ok linked =>
          refine .inr (.inr ⟨owner, parent, ?_, fun _ => Iff.rfl⟩)
          simpa only [apply, outcome] using linked_of_addInterface outcome

end Registry

end NominalTypes
