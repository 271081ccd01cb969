import NominalTypes.Proofs.Hierarchy.Locality
import NominalTypes.Proofs.Pool.Faithful

namespace NominalTypes

/-! Pools stay faithful when declarations are added and linked.

A new declaration changes nothing that has been computed.  A link may change
everything, and it advances the generation, so that nothing that was kept before
is used again. -/

namespace Catalog

variable {before after : Catalog}

theorem Genuine.add {values : List Ty} (genuine : before.Genuine values)
    {declaration : Declaration} (noSuperclass : declaration.superclass = none)
    (noInterfaces : declaration.interfaces = []) :
    (before.add declaration).Genuine values where
  sound := genuine.sound.add noSuperclass noInterfaces
  closed := allClosed_add (fun _ =>
      .mono (extends_add before declaration) List.prefix_rfl)
    genuine.closed noSuperclass noInterfaces

theorem Genuine.of_linked {values : List Ty} (genuine : before.Genuine values)
    {owner : TypeId} {parent : Parent}
    (linked : before.Linked after owner parent)
    (closed : parent.term.AllClosed (Ty.Genuine before values)) :
    after.Genuine values where
  sound := genuine.sound.of_linked linked
  closed := linked.allClosed (fun _ => .mono linked.extension List.prefix_rfl)
    genuine.closed closed

end Catalog

namespace Registry

variable {registry after : Registry} {owner : TypeId} {parent : Parent}

theorem generation_of_setSuperclass
    (accepted : registry.setSuperclass owner parent = .ok after) :
    after.catalog.generation = registry.catalog.generation + 1 := by
  obtain ⟨_, _, _, rfl⟩ :=
    (setSuperclass_eq_ok_iff registry owner parent after).mp accepted
  rfl

theorem generation_of_addInterface
    (accepted : registry.addInterface owner parent = .ok after) :
    after.catalog.generation = registry.catalog.generation + 1 := by
  obtain ⟨_, rfl⟩ :=
    (addInterface_eq_ok_iff registry owner parent after).mp accepted
  rfl

end Registry

namespace Pool.Faithful

variable {before after : Catalog} {values : List Ty} {pool : Pool}
  (faithful : pool.Faithful before values)

include faithful

theorem add {declaration : Declaration}
    (noSuperclass : declaration.superclass = none)
    (noInterfaces : declaration.interfaces = []) :
    pool.Faithful (before.add declaration) values := by
  have sound := faithful.declarations.sound
  have extension := Catalog.extends_add before declaration
  refine ⟨faithful.declarations.add noSuperclass noInterfaces,
    faithful.handles, ?_, faithful.generation, ?_⟩
  · exact fun ty member =>
      (faithful.remembered ty member).mono extension List.prefix_rfl
  · intro handle entry found current
    obtain ⟨genuine, value, stands, same⟩ :=
      faithful.kept handle entry found current
    rw [← (sound.sameAbove_add noSuperclass noInterfaces
      value.id).parentTypes] at same
    exact ⟨fun parent member =>
      (genuine parent member).mono extension List.prefix_rfl, value,
        stands, same⟩

theorem of_linked {owner : TypeId} {parent : Parent}
    (linked : before.Linked after owner parent)
    (advanced : after.generation = before.generation + 1)
    (closed : parent.term.AllClosed (Ty.Genuine before values)) :
    pool.Faithful after values := by
  have older : ∀ (handle : Nat) (entry : KeptParents),
      pool.kept[handle]? = some entry →
      entry.generation < after.generation := fun handle entry found => by
    rw [advanced]
    exact Nat.lt_succ_of_le (faithful.generation handle entry found)
  refine ⟨faithful.declarations.of_linked linked closed,
    faithful.handles, ?_, ?_, ?_⟩
  · exact fun ty member =>
      (faithful.remembered ty member).mono linked.extension List.prefix_rfl
  · exact fun handle entry found => Nat.le_of_lt (older handle entry found)
  · exact fun handle entry found current =>
      absurd current (Nat.ne_of_lt (older handle entry found))

end Pool.Faithful

end NominalTypes
