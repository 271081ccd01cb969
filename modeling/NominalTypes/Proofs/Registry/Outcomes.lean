import NominalTypes.Proofs.Registry.Links

namespace NominalTypes

/-! A link is made completely or not at all. -/

/-- What a parent needs: it fits the parameters of its owner, everything in it
is declared and complete, and it is neither the owner nor further down. -/
structure Catalog.Accepts (catalog : Catalog) (owner : TypeId)
    (parent : Parent) : Prop where
  declared : catalog.contains owner = true
  fits : parent.term.WellFormed catalog (catalog.arity owner)
  other : parent.id ≠ owner
  separate : ¬ catalog.ProperlyDerivesFrom parent.id owner

theorem Catalog.checkParent_eq_ok_iff_accepts {catalog : Catalog}
    {owner : TypeId} {parent : Parent} :
    catalog.checkParent owner parent = .ok () ↔
      catalog.Accepts owner parent := by
  rw [checkParent_eq_ok_iff, DerivesFrom,
    Relation.reflTransGen_iff_eq_or_transGen, not_or]
  constructor
  · rintro ⟨declared, fits, other, separate⟩
    exact ⟨declared, fits, Ne.symm other, separate⟩
  · rintro ⟨declared, fits, other, separate⟩
    exact ⟨declared, fits, Ne.symm other, separate⟩

def Link.change (link : Link) : Change :=
  if link.asSuperclass then .setSuperclass link.owner link.parent
  else .addInterface link.owner link.parent

theorem Change.eq_declare_or_link (change : Change) :
    (∃ kind name params, change = .declare kind name params) ∨
      ∃ link : Link, change = link.change := by
  cases change with
  | declare kind name params => exact .inl ⟨kind, name, params, rfl⟩
  | setSuperclass owner parent => exact .inr ⟨⟨owner, true, parent⟩, rfl⟩
  | addInterface owner parent => exact .inr ⟨⟨owner, false, parent⟩, rfl⟩

namespace Registry

/-- One declaration is another one now, under the next generation.  Everything
else is as it was. -/
structure Differs (before after : Registry) (owner : TypeId)
    (change : Declaration → Declaration) : Prop where
  generation : after.catalog.generation = before.catalog.generation + 1
  changed : ∃ declaration,
    before.catalog.declaration? owner = some declaration ∧
    after.catalog.declaration? owner = some (change declaration)
  others : ∀ id, id ≠ owner →
    after.catalog.declaration? id = before.catalog.declaration? id
  size : after.catalog.size = before.catalog.size
  unknownName : after.catalog.unknownName = before.catalog.unknownName
  names : after.names = before.names

variable {registry after : Registry} {link : Link}

theorem exists_link_iff :
    (∃ after, registry.link link = .ok after) ↔
      registry.catalog.Accepts link.owner link.parent ∧
        (link.asSuperclass = true →
          registry.catalog.kind link.parent.id ≠ .interfaceType ∧
            registry.catalog.superclass link.owner = none) := by
  have isClass : registry.catalog.kind link.parent.id = .classType ↔
      registry.catalog.kind link.parent.id ≠ .interfaceType := by
    cases registry.catalog.kind link.parent.id <;> simp
  simp only [link_eq_ok_iff, Catalog.checkParent_eq_ok_iff_accepts, isClass]
  constructor
  · rintro ⟨_, accepts, free, _⟩
    exact ⟨accepts, free⟩
  · rintro ⟨accepts, free⟩
    exact ⟨_, accepts, free, rfl⟩

theorem differs_link (linked : registry.link link = .ok after) :
    registry.Differs after link.owner link.join := by
  obtain ⟨checked, _, same⟩ := link_eq_ok_iff.mp linked
  obtain ⟨declaration, declared⟩ := Catalog.declaration?_of_contains
    (Catalog.checkParent_eq_ok_iff_accepts.mp checked).declared
  refine ⟨by rw [same]; rfl, ⟨declaration, declared, ?_⟩, ?_, ?_, ?_,
    names_link linked⟩
  · rw [declaration?_link linked, if_pos rfl, declared]
    rfl
  · intro id other
    rw [declaration?_link linked, if_neg other]
  · rw [same]
    exact Catalog.size_update _ _ _
  · rw [same]
    exact Catalog.unknownName_update _ _ _

theorem apply_change (registry : Registry) (link : Link) :
    registry.apply link.change =
      (registry.link link).toOption.getD registry := by
  obtain ⟨owner, asSuperclass, parent⟩ := link
  cases asSuperclass with
  | true =>
      change registry.apply (.setSuperclass owner parent) =
        (registry.setSuperclass owner parent).toOption.getD registry
      rw [apply]
      cases registry.setSuperclass owner parent <;> rfl
  | false =>
      change registry.apply (.addInterface owner parent) =
        (registry.addInterface owner parent).toOption.getD registry
      rw [apply]
      cases registry.addInterface owner parent <;> rfl

theorem run_append (changes later : List Change) :
    run (changes ++ later) = later.foldl apply (run changes) :=
  List.foldl_append

/-- After any calls, a parent is linked exactly if it fits, and a superclass
must be a class and the only one.  The link then adds the parent to its owner
and does nothing else.  A call that is refused leaves no trace, so all that
comes later goes as it would have without it. -/
theorem run_link (changes later : List Change) (link : Link) :
    ((∃ after, (run changes).link link = .ok after) ↔
      (run changes).catalog.Accepts link.owner link.parent ∧
        (link.asSuperclass = true →
          (run changes).catalog.kind link.parent.id ≠ .interfaceType ∧
            (run changes).catalog.superclass link.owner = none)) ∧
    (∀ after, (run changes).link link = .ok after →
      run (changes ++ [link.change]) = after ∧
        (run changes).Differs after link.owner link.join) ∧
    (∀ error, (run changes).link link = .error error →
      run (changes ++ link.change :: later) = run (changes ++ later)) := by
  refine ⟨exists_link_iff, fun after linked => ⟨?_, differs_link linked⟩,
    fun error refused => ?_⟩
  · rw [run_append, List.foldl_cons, apply_change, linked]
    rfl
  · rw [run_append, run_append, List.foldl_cons, apply_change, refused]
    rfl

end Registry

end NominalTypes
