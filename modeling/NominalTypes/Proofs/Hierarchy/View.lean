import NominalTypes.Hierarchy.View
import NominalTypes.Proofs.Hierarchy.DeclaredView

namespace NominalTypes.Catalog

/-! Climbing a chain of declared steps. -/

variable {catalog : Catalog}

theorem mem_steps_iff {id : TypeId} {step : Step} :
    step ∈ catalog.steps id ↔
      step.edge = .superclass ∧ catalog.superclass id = some step.parent ∨
        ∃ index, step.edge = .interface index ∧
          (catalog.interfaces id)[index]? = some step.parent := by
  rcases step with ⟨edge, parent⟩
  simp only [steps, List.mem_append, Option.mem_toList, Option.map_eq_some_iff,
    List.mem_mapIdx, Step.mk.injEq]
  constructor
  · rintro (⟨found, known, rfl, rfl⟩ | ⟨index, bound, rfl, rfl⟩)
    · exact .inl ⟨rfl, known⟩
    · exact .inr ⟨index, rfl, List.getElem?_eq_getElem bound⟩
  · rintro (⟨rfl, known⟩ | ⟨index, rfl, known⟩)
    · exact .inl ⟨parent, known, rfl, rfl⟩
    · obtain ⟨bound, known⟩ := List.getElem?_eq_some_iff.mp known
      exact .inr ⟨index, bound, rfl, known⟩

theorem along?_parentTypes (ty : Ty) {step : Step}
    (declared : step ∈ catalog.steps ty.id) :
    (catalog.parentTypes ty).along? step.edge =
      some (catalog.substitute ty.slots step.parent) := by
  rcases mem_steps_iff.mp declared with ⟨edge, found⟩ | ⟨index, edge, found⟩
  · simp [edge, ParentTypes.along?, parentTypes, found]
  · simp [edge, ParentTypes.along?, parentTypes, found]

def climb (catalog : Catalog) (ty : Ty) (steps : List Step) : Option Ty :=
  Id.run (climbUsing (fun ty => pure (catalog.parentTypes ty)) ty steps)

@[simp] theorem climb_nil (ty : Ty) : catalog.climb ty [] = some ty := rfl

theorem climb_cons (ty : Ty) {step : Step}
    (declared : step ∈ catalog.steps ty.id) (rest : List Step) :
    catalog.climb ty (step :: rest) =
      catalog.climb (catalog.substitute ty.slots step.parent) rest := by
  simp [climb, climbUsing, along?_parentTypes ty declared]

theorem viewAs_of_path {ty : Ty} {target : TypeId} {steps : List Step}
    (found : catalog.path ty.id target = some steps) :
    catalog.viewAs ty target = catalog.climb ty steps := by
  rw [viewAs, found]
  rfl

theorem exists_path_of_viewAs {ty view : Ty} {target : TypeId}
    (viewed : catalog.viewAs ty target = some view) :
    ∃ steps, catalog.path ty.id target = some steps := by
  rw [viewAs] at viewed
  obtain ⟨steps, found, _⟩ := Option.bind_eq_some_iff.mp viewed
  exact ⟨steps, found⟩

theorem exists_climb {origin target : TypeId} {steps : List Step}
    (chain : catalog.Chain origin steps target) {ty : Ty}
    (start : ty.id = origin) :
    ∃ view, catalog.climb ty steps = some view ∧ view.id = target ∧
      view.slots = catalog.slotsAlong ty.slots steps := by
  induction chain generalizing ty with
  | nil id => exact ⟨ty, rfl, start, rfl⟩
  | @cons origin target step rest declared above ih =>
      subst origin
      rw [climb_cons ty declared]
      exact ih rfl

theorem exists_viewAs {ty : Ty} {target : TypeId} {steps : List Step}
    (found : catalog.path ty.id target = some steps) :
    ∃ view, catalog.viewAs ty target = some view ∧ view.id = target ∧
      view.slots = catalog.slotsAlong ty.slots steps := by
  rw [viewAs_of_path found]
  exact exists_climb (path_chain found) rfl

/-- Where a parameter stands in the declared view, its content
stands in the view. -/
theorem at?_view (sound : catalog.Sound) {ty view : Ty} {target : TypeId}
    {steps : List Step} (chain : catalog.Chain ty.id steps target)
    (complete : ty.slots.length = catalog.arity ty.id)
    (slots : view.slots = catalog.slotsAlong ty.slots steps)
    {position : List Nat} {index : Nat}
    (stands : (catalog.declaredView ty.id target steps).at? position =
      some (.slot index)) :
    view.at? position = ty.slot? index := by
  cases position with
  | nil => cases stands
  | cons place position =>
      obtain ⟨arg, found, stands⟩ := Term.at?_apply_cons.mp stands
      rw [Ty.at?, Ty.slot?, slots, slotsAlong_eq_map sound chain complete,
        List.getElem?_map, found]
      exact Term.at?_evaluate stands

theorem evaluate_term (slots : List (Option Ty)) (parent : Parent) :
    parent.term.evaluate catalog slots =
      some (catalog.substitute slots parent) := by
  rw [Parent.term, Term.evaluate_apply_type, substitute,
    Term.evaluateAll_eq_map]

theorem substitute_wellFormed (sound : catalog.Sound)
    (closedSound : catalog.ClosedSound) {ty : Ty}
    (wellFormed : ty.WellFormed catalog) {parent : Parent}
    (declared : parent ∈ catalog.parents ty.id) :
    (catalog.substitute ty.slots parent).WellFormed catalog := by
  exact Term.evaluate_wellFormed (sound.parent_wellFormed ty.id parent declared)
    (closedSound ty.id parent declared) (fun _ member =>
      wellFormed.bound member)
    (evaluate_term ty.slots parent)

theorem climb_wellFormed (sound : catalog.Sound)
    (closedSound : catalog.ClosedSound) {origin target : TypeId}
    {steps : List Step} (chain : catalog.Chain origin steps target)
    {ty view : Ty} (start : ty.id = origin) (wellFormed : ty.WellFormed catalog)
    (found : catalog.climb ty steps = some view) : view.WellFormed catalog := by
  induction chain generalizing ty with
  | nil id =>
      cases found
      exact wellFormed
  | @cons origin target step rest declared above ih =>
      subst origin
      rw [climb_cons ty declared] at found
      exact ih rfl (substitute_wellFormed sound closedSound wellFormed
        (parent_mem_of_mem_steps declared)) found

end NominalTypes.Catalog
