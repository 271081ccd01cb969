import Mathlib.Logic.Relation
import NominalTypes.Hierarchy.Path
import NominalTypes.Proofs.Catalog.Declarations

namespace NominalTypes.Catalog

/-! The graph of the declared parents. -/

/-- Some declared parent of `id` has the identity `ancestor`. -/
def HasParent (catalog : Catalog) (id ancestor : TypeId) : Prop :=
  ∃ parent ∈ catalog.parents id, parent.id = ancestor

/-- `ancestor` is `id` itself, or declared parents lead from `id` to it. -/
def DerivesFrom (catalog : Catalog) : TypeId → TypeId → Prop :=
  Relation.ReflTransGen catalog.HasParent

/-- `ancestor` is reached from `id` through at least one declared parent. -/
def ProperlyDerivesFrom (catalog : Catalog) : TypeId → TypeId → Prop :=
  Relation.TransGen catalog.HasParent

def Acyclic (catalog : Catalog) : Prop :=
  ∀ id, ¬ catalog.ProperlyDerivesFrom id id

/-- Declared steps, the first declared on `origin`, each later one on the parent
of the step before it, and the last leading to `target`. -/
inductive Chain (catalog : Catalog) : TypeId → List Step → TypeId → Prop
  | nil (id : TypeId) : Chain catalog id [] id
  | cons {origin target : TypeId} {step : Step} {rest : List Step}
      (declared : step ∈ catalog.steps origin)
      (above : Chain catalog step.parent.id rest target) :
      Chain catalog origin (step :: rest) target

theorem hasParent_of_mem_steps {catalog : Catalog} {id : TypeId} {step : Step}
    (declared : step ∈ catalog.steps id) :
    catalog.HasParent id step.parent.id := by
  refine ⟨step.parent, ?_, rfl⟩
  rw [← map_parent_steps]
  exact List.mem_map_of_mem declared

theorem hasParent_iff_step {catalog : Catalog} {id ancestor : TypeId} :
    catalog.HasParent id ancestor ↔
      ∃ step ∈ catalog.steps id, step.parent.id = ancestor := by
  constructor
  · rintro ⟨parent, member, rfl⟩
    rw [← map_parent_steps] at member
    obtain ⟨step, declared, rfl⟩ := List.mem_map.mp member
    exact ⟨step, declared, rfl⟩
  · rintro ⟨step, declared, rfl⟩
    exact hasParent_of_mem_steps declared

theorem contains_of_hasParent {catalog : Catalog} {id ancestor : TypeId}
    (edge : catalog.HasParent id ancestor) : catalog.contains id = true := by
  obtain ⟨step, declared, _⟩ := hasParent_iff_step.mp edge
  cases contained : catalog.contains id with
  | true => rfl
  | false =>
      rw [steps_eq_nil_of_not_contains contained] at declared
      cases declared

namespace Chain

variable {catalog : Catalog}

theorem append_step {origin middle : TypeId} {steps : List Step} {step : Step}
    (chain : catalog.Chain origin steps middle)
    (declared : step ∈ catalog.steps middle) :
    catalog.Chain origin (steps ++ [step]) step.parent.id := by
  induction chain with
  | nil id => exact .cons declared (.nil _)
  | cons first above ih => exact .cons first (ih declared)

theorem derivesFrom {origin target : TypeId} {steps : List Step}
    (chain : catalog.Chain origin steps target) :
    catalog.DerivesFrom origin target := by
  induction chain with
  | nil id => exact .refl
  | cons declared above ih => exact .head (hasParent_of_mem_steps declared) ih

theorem exists_declaring {origin target : TypeId} {steps : List Step}
    (chain : catalog.Chain origin steps target) :
    ∀ step ∈ steps, ∃ id, step ∈ catalog.steps id := by
  induction chain with
  | nil id => exact nofun
  | @cons origin target step rest declared above ih =>
      intro other member
      rcases List.mem_cons.mp member with rfl | later
      · exact ⟨origin, declared⟩
      · exact ih other later

end Chain

theorem DerivesFrom.exists_chain {catalog : Catalog} {origin target : TypeId}
    (derived : catalog.DerivesFrom origin target) :
    ∃ steps, catalog.Chain origin steps target := by
  induction derived with
  | refl => exact ⟨[], .nil origin⟩
  | tail _ edge ih =>
      obtain ⟨steps, chain⟩ := ih
      obtain ⟨step, declared, rfl⟩ := hasParent_iff_step.mp edge
      exact ⟨steps ++ [step], chain.append_step declared⟩

section NewEdge

variable {before after : Catalog} {owner ancestor : TypeId}

/-- With one more edge, a way up either was there before or runs through
the new edge. -/
theorem properlyDerivesFrom_of_newEdge
    (edges : ∀ id parent, after.HasParent id parent →
      before.HasParent id parent ∨ id = owner ∧ parent = ancestor)
    {id target : TypeId} (way : after.ProperlyDerivesFrom id target) :
    before.ProperlyDerivesFrom id target ∨
      before.DerivesFrom id owner ∧ before.DerivesFrom ancestor target := by
  induction way with
  | single edge =>
      rcases edges _ _ edge with old | ⟨rfl, rfl⟩
      · exact .inl (.single old)
      · exact .inr ⟨.refl, .refl⟩
  | tail _ edge ih =>
      rcases edges _ _ edge with old | ⟨rfl, rfl⟩
      · rcases ih with way | ⟨below, above⟩
        · exact .inl (way.tail old)
        · exact .inr ⟨below, above.tail old⟩
      · rcases ih with way | ⟨below, _⟩
        · exact .inr ⟨way.to_reflTransGen, .refl⟩
        · exact .inr ⟨below, .refl⟩

theorem Acyclic.of_newEdge (acyclic : before.Acyclic)
    (edges : ∀ id parent, after.HasParent id parent →
      before.HasParent id parent ∨ id = owner ∧ parent = ancestor)
    (separate : ¬ before.DerivesFrom ancestor owner) : after.Acyclic := by
  intro id cycle
  rcases properlyDerivesFrom_of_newEdge edges cycle with old | ⟨below, above⟩
  · exact acyclic id old
  · exact separate (above.trans below)

end NewEdge

end NominalTypes.Catalog
