import NominalTypes.Proofs.Registry.Runs

namespace NominalTypes

/-! Every registry that calls lead to is sound. -/

/-- No type is above itself, every declared parent fits its owner, and
superclasses are classes. -/
structure Catalog.Sound (catalog : Catalog) : Prop where
  acyclic : catalog.Acyclic
  parent_wellFormed : ∀ id, ∀ parent ∈ catalog.parents id,
    parent.term.WellFormed catalog (catalog.arity id)
  superclass_class : ∀ id parent, catalog.superclass id = some parent →
    catalog.contains parent.id = true ∧ catalog.kind parent.id = .classType

/-- The closed types in declared parents are types of the catalog. -/
def Catalog.ClosedSound (catalog : Catalog) : Prop :=
  ∀ id, ∀ parent ∈ catalog.parents id,
    parent.term.AllClosed (Ty.WellFormed catalog)

namespace Catalog

theorem Sound.args_fit {catalog : Catalog} (sound : catalog.Sound) {id : TypeId}
    {parent : Parent} (declared : parent ∈ catalog.parents id) :
    catalog.contains parent.id = true ∧
      parent.args.length = catalog.arity parent.id ∧
      ∀ arg ∈ parent.args, arg.WellFormed catalog (catalog.arity id) :=
  Term.wellFormed_apply_iff.mp (sound.parent_wellFormed id parent declared)

variable {before after : Catalog} {owner : TypeId} {parent : Parent}

theorem sound_empty (unknownName : TypeId → String) :
    (empty unknownName).Sound := by
  refine ⟨?_, ?_, ?_⟩
  · intro id cycle
    obtain ⟨_, ⟨parent, member, _⟩, _⟩ := Relation.TransGen.head'_iff.mp cycle
    rw [parents_empty] at member
    cases member
  · intro id parent member
    rw [parents_empty] at member
    cases member
  · intro id parent found
    simp [superclass] at found

/-- A new declaration is nobody's parent and has no parents, so all the others
stay as they are. -/
theorem Sound.add (sound : before.Sound) {declaration : Declaration}
    (noSuperclass : declaration.superclass = none)
    (noInterfaces : declaration.interfaces = []) :
    (before.add declaration).Sound := by
  have extension := extends_add before declaration
  have sameParents := parents_add before noSuperclass noInterfaces
  refine ⟨?_, ?_, ?_⟩
  · have sameEdges : (before.add declaration).HasParent = before.HasParent := by
      funext id ancestor
      rw [HasParent, HasParent, sameParents]
    intro id
    rw [ProperlyDerivesFrom, sameEdges]
    exact sound.acyclic id
  · intro id parent member
    rw [sameParents] at member
    have declared := contains_of_hasParent ⟨parent, member, rfl⟩
    rw [extension.arity declared]
    exact (sound.parent_wellFormed id parent member).of_extends extension
  · intro id parent found
    rw [superclass_add before noSuperclass] at found
    obtain ⟨declared, isClass⟩ := sound.superclass_class id parent found
    exact ⟨extension.contains declared, (extension.kind declared).trans isClass⟩

/-- An accepted parent closes no cycle, because the check looks for the way back
before the link is made. -/
theorem Sound.of_linked (sound : before.Sound)
    (linked : before.Linked after owner parent) : after.Sound := by
  obtain ⟨_, fits, separate⟩ :=
    (before.checkParent_eq_ok_iff owner parent).mp linked.accepted
  refine ⟨?_, ?_, ?_⟩
  · refine sound.acyclic.of_newEdge ?_ separate
    rintro id ancestor ⟨candidate, member, rfl⟩
    rcases (linked.mem_parents_iff id candidate).mp member with old | ⟨rfl, rfl⟩
    · exact .inl ⟨candidate, old, rfl⟩
    · exact .inr ⟨rfl, rfl⟩
  · intro id candidate member
    rw [linked.arity]
    rcases (linked.mem_parents_iff id candidate).mp member with old | ⟨rfl, rfl⟩
    · exact (sound.parent_wellFormed id candidate old).of_extends
        linked.extension
    · exact fits.of_extends linked.extension
  · intro id candidate found
    have known : before.contains candidate.id = true ∧
        before.kind candidate.id = .classType := by
      rcases linked.superclass id candidate found with old | ⟨rfl, isClass⟩
      · exact sound.superclass_class id candidate old
      · exact ⟨(Term.wellFormed_apply_iff.mp fits).1, isClass⟩
    exact ⟨linked.extension.contains known.1,
      (linked.extension.kind known.1).trans known.2⟩

theorem allClosed_empty (unknownName : TypeId → String) (property : Ty → Prop) :
    ∀ id, ∀ parent ∈ (empty unknownName).parents id,
      parent.term.AllClosed property := by
  intro id parent member
  rw [parents_empty] at member
  cases member

section AllClosed

variable {property later : Ty → Prop} (implies : ∀ ty, property ty → later ty)
  (closed : ∀ id, ∀ parent ∈ before.parents id, parent.term.AllClosed property)

include implies closed

theorem allClosed_add {declaration : Declaration}
    (noSuperclass : declaration.superclass = none)
    (noInterfaces : declaration.interfaces = []) :
    ∀ id, ∀ parent ∈ (before.add declaration).parents id,
      parent.term.AllClosed later := by
  intro id parent member
  rw [parents_add before noSuperclass noInterfaces] at member
  exact (closed id parent member).imp implies

theorem Linked.allClosed (linked : before.Linked after owner parent)
    (last : parent.term.AllClosed property) :
    ∀ id, ∀ candidate ∈ after.parents id, candidate.term.AllClosed later := by
  intro id candidate member
  rcases (linked.mem_parents_iff id candidate).mp member with old | ⟨_, rfl⟩
  · exact (closed id candidate old).imp implies
  · exact last.imp implies

end AllClosed

end Catalog

namespace Registry

theorem sound_apply {registry : Registry} (sound : registry.catalog.Sound)
    (change : Change) : (registry.apply change).catalog.Sound := by
  rcases apply_cases registry change with
    same | ⟨_, _, _, added⟩ | ⟨_, _, linked, _⟩
  · rwa [same]
  · rw [added]
    exact sound.add rfl rfl
  · exact sound.of_linked linked

/-- Whatever the calls are, in whatever order they come and whether they are
accepted or not, no type is above itself, every declared parent is declared with
the right number of arguments at every depth and in terms of its owner's
parameters, and every superclass is a class. -/
theorem run_sound (changes : List Change) : (run changes).catalog.Sound :=
  run_induction (motive := fun registry => registry.catalog.Sound)
    (Catalog.sound_empty _) fun _ change _ sound => sound_apply sound change

theorem Reachable.sound {registry : Registry} (reachable : registry.Reachable) :
    registry.catalog.Sound := by
  induction reachable with
  | empty => exact Catalog.sound_empty _
  | apply change _ _ ih => exact sound_apply ih change

theorem extends_apply (registry : Registry) (change : Change) :
    registry.catalog.Extends (registry.apply change).catalog := by
  rcases apply_cases registry change with
    same | ⟨_, _, _, added⟩ | ⟨_, _, linked, _⟩
  · rw [same]
    exact .refl _
  · rw [added]
    exact Catalog.extends_add _ _
  · exact linked.extension

/-- What holds of the closed types in the declared parents and in a call holds
of those in the declared parents after it. -/
theorem allClosed_apply {registry : Registry} {change : Change}
    {property later : Ty → Prop} (implies : ∀ ty, property ty → later ty)
    (closed : ∀ id, ∀ parent ∈ registry.catalog.parents id,
      parent.term.AllClosed property)
    (last : change.AllClosed property) :
    ∀ id, ∀ parent ∈ (registry.apply change).catalog.parents id,
      parent.term.AllClosed later := by
  rcases apply_cases registry change with
    same | ⟨_, _, _, added⟩ | ⟨_, _, linked, hands⟩
  · rw [same]
    exact fun id parent member => (closed id parent member).imp implies
  · rw [added]
    exact Catalog.allClosed_add implies closed rfl rfl
  · exact linked.allClosed implies closed ((hands _).mp last)

theorem Reachable.closedSound {registry : Registry}
    (reachable : registry.Reachable) : registry.catalog.ClosedSound := by
  induction reachable with
  | empty => exact Catalog.allClosed_empty _ _
  | @apply registry change _ closed ih =>
      exact allClosed_apply
        (fun _ => .of_extends (extends_apply registry change)) ih
        (Change.closedIn_iff.mp closed)

theorem allClosed_run {property : Ty → Prop} {changes : List Change}
    (closed : ∀ change ∈ changes, change.AllClosed property) :
    ∀ id, ∀ parent ∈ (run changes).catalog.parents id,
      parent.term.AllClosed property :=
  run_induction (motive := fun registry =>
      ∀ id, ∀ parent ∈ registry.catalog.parents id,
        parent.term.AllClosed property)
    (Catalog.allClosed_empty _ property) fun _ change member before =>
      allClosed_apply (fun _ => id) before (closed change member)

end Registry

end NominalTypes
