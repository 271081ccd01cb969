import NominalTypes.Proofs.Hierarchy.Locality
import NominalTypes.Proofs.Registry.Outcomes

namespace NominalTypes

/-! A call changes what is above the type that it gives a parent, and above the
types that derive from that. -/

/-- The type that the call gives a parent. -/
def Change.owner? : Change → Option TypeId
  | .declare .. => none
  | .setSuperclass owner _ => some owner
  | .addInterface owner _ => some owner

namespace Registry

variable {registry after : Registry} {link : Link} {origin : TypeId}

/-- A call declares, or is refused, or makes a link. -/
theorem exists_link_of_apply (registry : Registry) (change : Change) :
    (∃ kind name params, change = .declare kind name params) ∨
      registry.apply change = registry ∨
      ∃ link : Link, change.owner? = some link.owner ∧
        registry.link link = .ok (registry.apply change) := by
  have ofLink : ∀ link : Link, change = link.change →
      change.owner? = some link.owner →
      registry.apply change = registry ∨
        ∃ link : Link, change.owner? = some link.owner ∧
        registry.link link = .ok (registry.apply change) := by
    rintro link rfl owner
    rw [apply_change]
    cases outcome : registry.link link with
    | error _ => exact .inl rfl
    | ok linked => exact .inr ⟨link, owner, outcome⟩
  cases change with
  | declare kind name params => exact .inl ⟨kind, name, params, rfl⟩
  | setSuperclass owner parent =>
      exact .inr (ofLink ⟨owner, true, parent⟩ rfl rfl)
  | addInterface owner parent =>
      exact .inr (ofLink ⟨owner, false, parent⟩ rfl rfl)

theorem sameAbove_link (sound : registry.catalog.Sound)
    (linked : registry.link link = .ok after)
    (apart : ¬ registry.catalog.DerivesFrom origin link.owner) :
    registry.catalog.SameAbove after.catalog origin := by
  have others : ∀ id, registry.catalog.DerivesFrom origin id →
      after.catalog.declaration? id = registry.catalog.declaration? id := by
    intro id derived
    refine (differs_link linked).others id ?_
    rintro rfl
    exact apart derived
  refine ⟨sound, (linked_link linked).extension, fun id derived => ?_,
    fun id derived => ?_⟩
  · rw [Catalog.superclass, Catalog.superclass, others id derived]
  · rw [Catalog.interfaces, Catalog.interfaces, others id derived]

theorem sameAbove_apply (sound : registry.catalog.Sound) (change : Change)
    (apart : ∀ owner ∈ change.owner?,
      ¬ registry.catalog.DerivesFrom origin owner) :
    registry.catalog.SameAbove (registry.apply change).catalog origin := by
  rcases exists_link_of_apply registry change with
    ⟨_, _, _, rfl⟩ | same | ⟨link, owner, linked⟩
  · exact sound.sameAbove_add rfl rfl origin
  · rw [same]
    exact .refl sound origin
  · exact sameAbove_link sound linked (apart link.owner owner)

theorem alike_link (linked : registry.link link = .ok after) (id : TypeId) :
    registry.catalog.Alike after.catalog id := by
  cases declared : registry.catalog.contains id with
  | true => exact (linked_link linked).extension.alike declared
  | false =>
      have none : registry.catalog.declaration? id = none := by
        simpa [Catalog.contains] using declared
      have noneToo : after.catalog.declaration? id = .none := by
        rw [declaration?_link linked, none, Option.map_none, ite_self]
      constructor
      · rw [Catalog.contains, Catalog.contains, none, noneToo]
      · rw [Catalog.name, Catalog.name, none, noneToo,
          (differs_link linked).unknownName]
      · rw [Catalog.kind, Catalog.kind, none, noneToo]
      · rw [Catalog.arity, Catalog.arity, none, noneToo]
      · rw [Catalog.params, Catalog.params, none, noneToo]

theorem alike_apply (change : Change) {id : TypeId}
    (declared : change.owner? = none → registry.catalog.contains id = true) :
    registry.catalog.Alike (registry.apply change).catalog id := by
  rcases exists_link_of_apply registry change with
    ⟨_, _, _, rfl⟩ | same | ⟨link, _, linked⟩
  · exact (Catalog.extends_add _ _).alike (declared rfl)
  · rw [same]
    exact .refl _ id
  · exact alike_link linked id

theorem derivesFrom_apply (change : Change) {id ancestor : TypeId}
    (derived : registry.catalog.DerivesFrom id ancestor) :
    (registry.apply change).catalog.DerivesFrom id ancestor := by
  have edges : ∀ id, ∀ parent ∈ registry.catalog.parents id,
      parent ∈ (registry.apply change).catalog.parents id := by
    intro id parent declared
    rcases apply_cases registry change with
      same | ⟨_, _, _, added⟩ | ⟨_, _, linked, _⟩
    · rwa [same]
    · rwa [added, Catalog.parents_add _ rfl rfl]
    · exact (linked.mem_parents_iff id parent).mpr (.inl declared)
  refine Relation.ReflTransGen.mono ?_ _ _ derived
  rintro id ancestor ⟨parent, declared, found⟩
  exact ⟨parent, edges id parent declared, found⟩

end Registry

end NominalTypes
