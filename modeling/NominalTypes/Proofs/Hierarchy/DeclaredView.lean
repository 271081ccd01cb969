import NominalTypes.Inference.Basic
import NominalTypes.Proofs.Registry.Soundness
import NominalTypes.Proofs.Term.Substitution

namespace NominalTypes.Catalog

/-! What an ancestor looks like from below. -/

/-- The arguments of the ancestor at the end of the steps, in terms of the
parameters at their beginning, for which `args` stand. -/
def composeArgs (args : List Term) (steps : List Step) : List Term :=
  steps.foldl (fun args step => step.parent.args.map (Term.substitute args)) args

def ownParams (catalog : Catalog) (id : TypeId) : List Term :=
  (List.range (catalog.arity id)).map Term.slot

/-- The ancestor with the identity `target` as the declarations along the steps
give it, in terms of the parameters of `origin`. -/
def declaredView (catalog : Catalog) (origin target : TypeId)
    (steps : List Step) : Term :=
  .apply target (composeArgs (catalog.ownParams origin) steps)

variable {catalog : Catalog}

theorem parent_mem_of_mem_steps {id : TypeId} {step : Step}
    (declared : step ∈ catalog.steps id) :
    step.parent ∈ catalog.parents id := by
  rw [← map_parent_steps]
  exact List.mem_map_of_mem declared

theorem Chain.args_allClosed {property : Ty → Prop} {origin target : TypeId}
    {steps : List Step} (chain : catalog.Chain origin steps target)
    (closed : ∀ id, ∀ parent ∈ catalog.parents id,
      parent.term.AllClosed property) :
    ∀ step ∈ steps, ∀ arg ∈ step.parent.args, arg.AllClosed property := by
  intro step member
  obtain ⟨id, declared⟩ := chain.exists_declaring step member
  cases closed id step.parent (parent_mem_of_mem_steps declared) with
  | apply inside => exact inside

theorem composeArgs_wellFormed (sound : catalog.Sound) {arity : Nat}
    {origin target : TypeId} {steps : List Step}
    (chain : catalog.Chain origin steps target) {args : List Term}
    (complete : args.length = catalog.arity origin)
    (fitting : ∀ arg ∈ args, arg.WellFormed catalog arity) :
    (composeArgs args steps).length = catalog.arity target ∧
      ∀ arg ∈ composeArgs args steps, arg.WellFormed catalog arity := by
  induction chain generalizing args with
  | nil id => exact ⟨complete, fitting⟩
  | @cons origin target step rest declared above ih =>
      obtain ⟨_, lengths, inner⟩ :=
        sound.args_fit (parent_mem_of_mem_steps declared)
      refine @ih (step.parent.args.map (Term.substitute args)) ?_ ?_
      · rw [List.length_map, lengths]
      · intro arg member
        obtain ⟨term, termMember, rfl⟩ := List.mem_map.mp member
        exact (complete ▸ inner term termMember).substitute fitting

theorem composeArgs_allClosed {property : Ty → Prop} {args : List Term}
    {steps : List Step}
    (declared : ∀ step ∈ steps, ∀ arg ∈ step.parent.args,
      arg.AllClosed property) (allArgs : ∀ arg ∈ args, arg.AllClosed property) :
    ∀ arg ∈ composeArgs args steps, arg.AllClosed property := by
  induction steps generalizing args with
  | nil => exact allArgs
  | cons step rest ih =>
      refine ih
        (fun later member => declared later (List.mem_cons_of_mem _ member)) ?_
      intro arg member
      obtain ⟨term, termMember, rfl⟩ := List.mem_map.mp member
      exact (declared step List.mem_cons_self term termMember).substitute allArgs

/-- In every slot algebra, following the steps is evaluating the
composed arguments. -/
theorem slotsAlong_evaluate {α : Type} [SlotAlgebra α] (sound : catalog.Sound)
    {arity : Nat} {origin target : TypeId} {steps : List Step}
    (chain : catalog.Chain origin steps target) (slots : List α)
    {args : List Term} (complete : args.length = catalog.arity origin)
    (fitting : ∀ arg ∈ args, arg.WellFormed catalog arity) :
    catalog.slotsAlong (args.map (Term.evaluate catalog slots)) steps =
      (composeArgs args steps).map (Term.evaluate catalog slots) := by
  induction chain generalizing args with
  | nil id => rfl
  | @cons origin target step rest declared above ih =>
      obtain ⟨_, lengths, inner⟩ :=
        sound.args_fit (parent_mem_of_mem_steps declared)
      have composed :
          Term.evaluateAll catalog (args.map (Term.evaluate catalog slots))
              step.parent.args =
            (step.parent.args.map (Term.substitute args)).map
              (Term.evaluate catalog slots) := by
        rw [Term.evaluateAll_eq_map, List.map_map]
        exact List.map_congr_left fun arg member =>
          (Term.evaluate_substitute slots (complete ▸ inner arg member)).symm
      rw [slotsAlong, List.foldl_cons, composed]
      refine @ih (step.parent.args.map (Term.substitute args)) ?_ ?_
      · rw [List.length_map, lengths]
      · intro arg member
        obtain ⟨term, termMember, rfl⟩ := List.mem_map.mp member
        exact (complete ▸ inner term termMember).substitute fitting

@[simp] theorem length_ownParams (id : TypeId) :
    (catalog.ownParams id).length = catalog.arity id := by
  simp [ownParams]

theorem ownParams_wellFormed (id : TypeId) :
    ∀ arg ∈ catalog.ownParams id,
      arg.WellFormed catalog (catalog.arity id) := by
  intro arg member
  obtain ⟨index, bound, rfl⟩ := List.mem_map.mp member
  exact .slot (List.mem_range.mp bound)

theorem ownParams_allClosed (property : Ty → Prop) (id : TypeId) :
    ∀ arg ∈ catalog.ownParams id, arg.AllClosed property := by
  intro arg member
  obtain ⟨index, _, rfl⟩ := List.mem_map.mp member
  exact .slot index

theorem evaluate_ownParams {α : Type} [SlotAlgebra α] (id : TypeId)
    {slots : List α} (complete : slots.length = catalog.arity id) :
    (catalog.ownParams id).map (Term.evaluate catalog slots) = slots := by
  apply List.ext_getElem (by rw [List.length_map, length_ownParams, complete])
  intro index _ bound
  simp [ownParams, bound]

theorem slotsAlong_eq_map {α : Type} [SlotAlgebra α] (sound : catalog.Sound)
    {origin target : TypeId} {steps : List Step}
    (chain : catalog.Chain origin steps target) {slots : List α}
    (complete : slots.length = catalog.arity origin) :
    catalog.slotsAlong slots steps =
      (composeArgs (catalog.ownParams origin) steps).map
        (Term.evaluate catalog slots) := by
  have evaluated :=
    slotsAlong_evaluate sound chain slots (length_ownParams origin)
      (ownParams_wellFormed origin)
  rwa [evaluate_ownParams origin complete] at evaluated

theorem declaredView_wellFormed (sound : catalog.Sound) {origin target : TypeId}
    {steps : List Step} (chain : catalog.Chain origin steps target)
    (declared : catalog.contains target = true) :
    (catalog.declaredView origin target steps).WellFormed catalog
      (catalog.arity origin) := by
  obtain ⟨complete, fitting⟩ :=
    composeArgs_wellFormed sound chain (length_ownParams origin)
      (ownParams_wellFormed origin)
  exact .apply declared complete fitting

theorem composeArgs_append (args : List Term) (below above : List Step) :
    composeArgs args (below ++ above) =
      composeArgs (composeArgs args below) above :=
  List.foldl_append

/-- What is put into the arguments at the end of the steps can be put into those
at their beginning. -/
theorem map_substitute_composeArgs (sound : catalog.Sound)
    {origin target : TypeId} {steps : List Step}
    (chain : catalog.Chain origin steps target) (outer : List Term)
    {args : List Term} (complete : args.length = catalog.arity origin) :
    (composeArgs args steps).map (Term.substitute outer) =
      composeArgs (args.map (Term.substitute outer)) steps := by
  induction chain generalizing args with
  | nil id => rfl
  | @cons origin target step rest declared above ih =>
      obtain ⟨_, lengths, inner⟩ :=
        sound.args_fit (parent_mem_of_mem_steps declared)
      have composed :
          (step.parent.args.map (Term.substitute args)).map
              (Term.substitute outer) =
            step.parent.args.map
              (Term.substitute (args.map (Term.substitute outer))) := by
        rw [List.map_map]
        exact List.map_congr_left fun arg member =>
          Term.substitute_substitute outer (complete ▸ inner arg member)
      refine (@ih (step.parent.args.map (Term.substitute args)) ?_).trans ?_
      · rw [List.length_map, lengths]
      · rw [composed]
        rfl

theorem map_substitute_ownParams (id : TypeId) {args : List Term}
    (complete : args.length = catalog.arity id) :
    (catalog.ownParams id).map (Term.substitute args) = args := by
  apply List.ext_getElem (by rw [List.length_map, length_ownParams, complete])
  intro index _ bound
  simp [ownParams, bound]

/-- The declared view along two ways is the view along the second, with the
arguments that the first comes to in the place of the parameters. -/
theorem declaredView_append (sound : catalog.Sound)
    {origin middle target : TypeId} {below above : List Step}
    (chainBelow : catalog.Chain origin below middle)
    (chainAbove : catalog.Chain middle above target) :
    catalog.declaredView origin target (below ++ above) =
      (catalog.declaredView middle target above).substitute
        (composeArgs (catalog.ownParams origin) below) := by
  have complete :=
    (composeArgs_wellFormed sound chainBelow (length_ownParams origin)
      (ownParams_wellFormed origin)).1
  rw [declaredView, declaredView, Term.substitute_apply, composeArgs_append,
    map_substitute_composeArgs sound chainAbove _ (length_ownParams middle),
    map_substitute_ownParams middle complete]

/-- A parameter stands where the view from the middle has a slot, and below it
where the view of the middle has the parameter in this slot. -/
theorem at?_declaredView_append_iff (sound : catalog.Sound)
    {origin middle target : TypeId} {below above : List Step}
    (chainBelow : catalog.Chain origin below middle)
    (chainAbove : catalog.Chain middle above target)
    (declared : catalog.contains target = true) {position : List Nat}
    {index : Nat} :
    (catalog.declaredView origin target (below ++ above)).at? position =
        some (.slot index) ↔
      ∃ front place back, position = front ++ back ∧
        (catalog.declaredView middle target above).at? front =
          some (.slot place) ∧
        (catalog.declaredView origin middle below).at? (place :: back) =
          some (.slot index) := by
  have complete :=
    (composeArgs_wellFormed sound chainBelow (length_ownParams origin)
      (ownParams_wellFormed origin)).1
  have wellFormed := declaredView_wellFormed sound chainAbove declared
  rw [declaredView_append sound chainBelow chainAbove,
    Term.at?_substitute_iff (complete.symm ▸ wellFormed)]
  simp only [declaredView, Term.at?_apply_cons]
  constructor
  · rintro ⟨front, place, back, arg, split, stands, found, below⟩
    exact ⟨front, place, back, split, stands, arg, found, below⟩
  · rintro ⟨front, place, back, split, stands, arg, found, below⟩
    exact ⟨front, place, back, arg, split, stands, found, below⟩

theorem lt_arity_of_at?_declaredView (sound : catalog.Sound)
    {origin target : TypeId} {steps : List Step}
    (chain : catalog.Chain origin steps target) {position : List Nat}
    {index : Nat}
    (stands : (catalog.declaredView origin target steps).at? position =
      some (.slot index)) :
    index < catalog.arity origin := by
  obtain ⟨_, fitting⟩ :=
    composeArgs_wellFormed sound chain (length_ownParams origin)
      (ownParams_wellFormed origin)
  cases position with
  | nil => cases stands
  | cons place position =>
      obtain ⟨arg, found, stands⟩ := Term.at?_apply_cons.mp stands
      exact Term.wellFormed_slot_iff.mp
        ((fitting arg (List.mem_of_getElem? found)).at? stands)

end NominalTypes.Catalog
