import NominalTypes.Proofs.Hierarchy.Ancestors

namespace NominalTypes

/-! What is computed for a type from below reads no declarations but
those further up. -/

/-- A value changes with the catalog only if the value of an application of
something declared does. -/
theorem Term.evaluate_congr {α : Type} [SlotAlgebra α] {before after : Catalog}
    {arity : Nat} {term : Term}
    (applied : ∀ id, before.contains id = true → ∀ args : List α,
      SlotAlgebra.apply after id args = SlotAlgebra.apply before id args)
    (wellFormed : term.WellFormed before arity) (slots : List α) :
    term.evaluate after slots = term.evaluate before slots := by
  induction wellFormed with
  | slot bound => rfl
  | closed ty => rfl
  | apply declared _ _ ih =>
      rw [evaluate_apply, evaluate_apply, applied _ declared,
        List.map_congr_left ih]

namespace Catalog

variable {before after : Catalog}

theorem Extends.apply_type (extension : before.Extends after) {id : TypeId}
    (declared : before.contains id = true) (args : List (Option Ty)) :
    (SlotAlgebra.apply after id args : Option Ty) =
      SlotAlgebra.apply before id args := by
  change some (Ty.mk id (after.name id) args none) =
    some (Ty.mk id (before.name id) args none)
  rw [extension.name declared]

theorem Sound.evaluateAll_congr (sound : before.Sound) {α : Type}
    [SlotAlgebra α]
    (applied : ∀ id, before.contains id = true → ∀ args : List α,
      SlotAlgebra.apply after id args = SlotAlgebra.apply before id args)
    (slots : List α) {id : TypeId} {parent : Parent}
    (declared : parent ∈ before.parents id) :
    Term.evaluateAll after slots parent.args =
      Term.evaluateAll before slots parent.args := by
  obtain ⟨_, _, fitting⟩ := sound.args_fit declared
  rw [Term.evaluateAll_eq_map, Term.evaluateAll_eq_map]
  exact List.map_congr_left fun arg member =>
    Term.evaluate_congr applied (fitting arg member) slots

theorem Sound.substitute_extends (sound : before.Sound)
    (extension : before.Extends after) (slots : List (Option Ty)) {id : TypeId}
    {parent : Parent} (declared : parent ∈ before.parents id) :
    after.substitute slots parent = before.substitute slots parent := by
  obtain ⟨known, _⟩ := sound.args_fit declared
  rw [substitute, substitute, extension.name known,
    sound.evaluateAll_congr (fun _ => extension.apply_type) slots declared]

/-- The catalogs say the same of the identity, its parents apart. -/
structure Alike (before after : Catalog) (id : TypeId) : Prop where
  contains : after.contains id = before.contains id
  name : after.name id = before.name id
  kind : after.kind id = before.kind id
  arity : after.arity id = before.arity id
  params : after.params id = before.params id

theorem Alike.refl (catalog : Catalog) (id : TypeId) :
    catalog.Alike catalog id :=
  ⟨rfl, rfl, rfl, rfl, rfl⟩

theorem Extends.alike (extension : before.Extends after) {id : TypeId}
    (declared : before.contains id = true) : before.Alike after id where
  contains := (extension.contains declared).trans declared.symm
  name := extension.name declared
  kind := extension.kind declared
  arity := extension.arity declared
  params := extension.params declared

/-- Whatever was declared stays so, and from `origin` upwards every type has the
parents that it had. -/
structure SameAbove (before after : Catalog) (origin : TypeId) : Prop where
  sound : before.Sound
  extension : before.Extends after
  superclass : ∀ id, before.DerivesFrom origin id →
    after.superclass id = before.superclass id
  interfaces : ∀ id, before.DerivesFrom origin id →
    after.interfaces id = before.interfaces id

namespace SameAbove

variable {origin target : TypeId} {steps : List Step} {ty : Ty}

theorem refl {catalog : Catalog} (sound : catalog.Sound) (origin : TypeId) :
    catalog.SameAbove catalog origin :=
  ⟨sound, .refl catalog, fun _ _ => rfl, fun _ _ => rfl⟩

theorem up (same : before.SameAbove after origin)
    (derived : before.DerivesFrom origin target) :
    before.SameAbove after target :=
  ⟨same.sound, same.extension,
    fun id above => same.superclass id (derived.trans above),
    fun id above => same.interfaces id (derived.trans above)⟩

theorem steps_eq (same : before.SameAbove after origin) :
    after.steps origin = before.steps origin := by
  rw [Catalog.steps, Catalog.steps, same.superclass origin .refl,
    same.interfaces origin .refl]

theorem of_step (same : before.SameAbove after origin) {step : Step}
    (declared : step ∈ before.steps origin) :
    before.SameAbove after step.parent.id :=
  same.up (.single (hasParent_of_mem_steps declared))

/-! Ways up. -/

theorem chain_iff (same : before.SameAbove after origin) :
    after.Chain origin steps target ↔ before.Chain origin steps target := by
  induction steps generalizing origin with
  | nil => constructor <;> rintro ⟨⟩ <;> exact .nil _
  | cons step rest ih =>
      constructor
      · rintro (_ | ⟨declared, above⟩)
        rw [same.steps_eq] at declared
        exact .cons declared ((ih (same.of_step declared)).mp above)
      · rintro (_ | ⟨declared, above⟩)
        exact .cons (same.steps_eq ▸ declared)
          ((ih (same.of_step declared)).mpr above)

theorem firstChain_iff (same : before.SameAbove after origin) :
    after.FirstChain origin steps target ↔
      before.FirstChain origin steps target := by
  constructor
  · intro first
    exact ⟨same.chain_iff.mp first.chain, fun other chain =>
      first.first other (same.chain_iff.mpr chain)⟩
  · intro first
    exact ⟨same.chain_iff.mpr first.chain, fun other chain =>
      first.first other (same.chain_iff.mp chain)⟩

theorem path (same : before.SameAbove after origin) (target : TypeId) :
    after.path origin target = before.path origin target :=
  Option.ext fun steps => by
    rw [path_eq_some_iff, path_eq_some_iff, same.firstChain_iff]

theorem derives (same : before.SameAbove after origin) (target : TypeId) :
    after.derives origin target = before.derives origin target := by
  rw [Catalog.derives, Catalog.derives, same.path]

theorem trails (same : before.SameAbove after origin) :
    after.trails origin = before.trails origin := by
  refine Trail.eq_of_sorted (trails_sorted after origin)
    (trails_sorted before origin) ?_
  intro trail
  rw [mem_trails_iff, mem_trails_iff, same.firstChain_iff]

/-! Views. -/

theorem parentTypes (same : before.SameAbove after ty.id) :
    after.parentTypes ty = before.parentTypes ty := by
  have each : ∀ parent ∈ before.parents ty.id,
      after.substitute ty.slots parent = before.substitute ty.slots parent :=
    fun _ declared =>
      same.sound.substitute_extends same.extension ty.slots declared
  rw [Catalog.parentTypes, Catalog.parentTypes, same.superclass ty.id .refl,
    same.interfaces ty.id .refl]
  congr 1
  · refine Option.map_congr fun parent found => each parent ?_
    exact List.mem_append_left _ (Option.mem_toList.mpr found)
  · exact List.map_congr_left fun parent member =>
      each parent (List.mem_append_right _ member)

theorem ascend (same : before.SameAbove after origin)
    (chain : before.Chain origin steps target) (start : ty.id = origin) :
    after.ascend ty steps = before.ascend ty steps := by
  induction chain generalizing ty with
  | nil id => rfl
  | @cons origin target step rest declared _ ih =>
      have first := same.sound.substitute_extends same.extension ty.slots
        (parent_mem_of_mem_steps declared)
      rw [Catalog.ascend, Catalog.ascend, List.foldl_cons,
        List.foldl_cons, first]
      exact ih (same.of_step declared) rfl

theorem viewAs (same : before.SameAbove after ty.id) (target : TypeId) :
    after.viewAs ty target = before.viewAs ty target := by
  cases found : before.path ty.id target with
  | none => rw [Catalog.viewAs, Catalog.viewAs, same.path, found]; rfl
  | some steps =>
      have foundToo : after.path ty.id target = some steps :=
        (same.path target).trans found
      rw [viewAs_eq_ascend found, viewAs_eq_ascend foundToo,
        same.ascend (path_chain found) rfl]

theorem ancestors (same : before.SameAbove after ty.id) :
    after.ancestors ty = before.ancestors ty := by
  rw [ancestors_eq_map, ancestors_eq_map, same.trails]
  exact List.map_congr_left fun _ member =>
    same.ascend (path_chain (path_of_mem_trails member)) rfl

theorem fullDescription (same : before.SameAbove after ty.id)
    (alike : before.Alike after ty.id) :
    after.fullDescription ty = before.fullDescription ty := by
  rw [Catalog.fullDescription, Catalog.fullDescription, alike.kind,
    same.parentTypes]

end SameAbove

/-- A new declaration is above nothing that was there before. -/
theorem Sound.sameAbove_add (sound : before.Sound) {declaration : Declaration}
    (noSuperclass : declaration.superclass = none)
    (noInterfaces : declaration.interfaces = []) (origin : TypeId) :
    before.SameAbove (before.add declaration) origin where
  sound := sound
  extension := extends_add before declaration
  superclass := fun id _ => superclass_add before noSuperclass id
  interfaces := fun id _ => interfaces_add before noInterfaces id

end Catalog

end NominalTypes
