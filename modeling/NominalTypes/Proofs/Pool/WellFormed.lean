import NominalTypes.Proofs.Inference.Alignment
import NominalTypes.Proofs.Pool.Runs

namespace NominalTypes

/-! The types of all answers fit the declarations. -/

namespace Scene

theorem shelf_perform (scene : Scene) (pool : Pool) (request : Request) :
    ((scene.perform Pool.answer request).run pool).1.2.shelf =
      scene.shelf ++
        ((scene.perform Pool.answer request).run pool).1.1.held := by
  have settled : ∀ outcome, (scene.settle outcome).2.shelf =
      scene.shelf ++ (scene.settle outcome).1.held := by
    rintro (error | registry)
    · exact (List.append_nil _).symm
    · exact (List.append_nil _).symm
  cases request with
  | declare kind name params => exact (List.append_nil _).symm
  | setSuperclass owner parent args =>
      rw [perform]
      cases Draft.terms scene.shelf args with
      | none => exact (List.append_nil _).symm
      | some terms => exact settled _
  | addInterface owner parent args =>
      rw [perform]
      cases Draft.terms scene.shelf args with
      | none => exact (List.append_nil _).symm
      | some terms => exact settled _
  | ask question =>
      rw [perform]
      cases question.replace fun place => scene.shelf[place]? with
      | none => exact (List.append_nil _).symm
      | some question => rfl

theorem shelf_performAll (scene : Scene) (pool : Pool)
    (requests : List Request) :
    ((scene.performAll Pool.answer requests).run pool).1.2.shelf =
      scene.shelf ++
        ((scene.performAll Pool.answer requests).run pool).1.1.flatMap
          Answer.held := by
  induction requests generalizing scene pool with
  | nil => exact (List.append_nil _).symm
  | cons request rest ih =>
      have later := ih ((scene.perform Pool.answer request).run pool).1.2
        ((scene.perform Pool.answer request).run pool).2
      rw [shelf_perform, List.append_assoc] at later
      exact later

end Scene

theorem Catalog.Genuine.closedSound {catalog : Catalog} {values : List Ty}
    (genuine : catalog.Genuine values) :
    catalog.ClosedSound := fun id parent declared =>
  (genuine.closed id parent declared).imp fun _ part => part.wellFormed

/-- After any run every type of its answers fits the
declarations, at every depth.

So nothing is ever looked for in a slot that does not exist.  The parents of a
type that fits mention only slots that it has, and what is put together from
them fits again.  On a way up from a target the parents mention only slots that
the patterns so far have, no pattern has anything unbound in it, and the
patterns at the end are as many as the slots of the known type and are matched
with them without leaving out any slot. -/
theorem Pool.answers_wellFormed (memoize tracing : Bool)
    (requests : List Request) :
    let outcome :=
      (Scene.empty.performAll answer requests).run (.empty memoize tracing)
    let catalog := outcome.1.2.registry.catalog
    (∀ answer ∈ outcome.1.1, ∀ ty ∈ answer.held, ty.WellFormed catalog) ∧
      (∀ ty : Ty, ty.WellFormed catalog → ∀ parent ∈ catalog.parents ty.id,
        (∀ index, parent.term.Mentions index → index < ty.slots.length) ∧
          (catalog.substitute ty.slots parent).WellFormed catalog) ∧
      ∀ known : Ty, known.WellFormed catalog → ∀ target steps,
        catalog.path target known.id = some steps →
        (∀ below step above, steps = below ++ step :: above → ∀ index,
          step.parent.term.Mentions index →
            index < (catalog.viewPatterns target below).length) ∧
        (∀ below above,
          steps = below ++ above →
            ∀ pattern ∈ catalog.viewPatterns target below,
          pattern.WellFormed catalog (catalog.arity target)) ∧
        (catalog.viewPatterns target steps).length = known.slots.length ∧
        ∀ (index : Nat) (pattern : Pattern) (other : Ty),
          (catalog.viewPatterns target steps)[index]? = some pattern →
          known.slot? index = some other → pattern.Aligned other := by
  intro outcome catalog
  obtain ⟨values, _, served, _⟩ :=
    (Scene.servedBy_empty memoize tracing).performAll requests
  have sound : catalog.Sound := served.faithful.declarations.sound
  have closedSound : catalog.ClosedSound :=
    served.faithful.declarations.closedSound
  have fits : ∀ ty ∈ outcome.1.2.shelf, ty.WellFormed catalog :=
    fun ty member => (served.shelf ty member).wellFormed
  refine ⟨fun answer answered ty member => fits ty ?_, ?_, ?_⟩
  · rw [Scene.shelf_performAll]
    exact List.mem_append_right _
      (List.mem_flatMap.mpr ⟨answer, answered, member⟩)
  · exact fun _ wellFormed _ declared =>
      Catalog.parents_fit sound closedSound wellFormed declared
  · exact fun _ wellFormed _ _ path =>
      Catalog.viewPatterns_fit sound closedSound wellFormed
        (Catalog.path_chain path)

namespace Collections

def gridRequests : List Request :=
  [.declare .interfaceType "List" ["E"],
    .declare .interfaceType "Map" ["K", "V"], .declare .classType "String" [],
    .declare .classType "Grid" ["R", "C"],
    .addInterface 4 2 [.slot 0, .apply 1 [.slot 0]], .ask (.resolve 3 []),
    .ask (.resolve 1 [0]),
    .ask (.resolve 2 [0, 1])]

def gridSteps : List Step :=
  [⟨.interface 0, ⟨2, [.slot 0, .apply 1 [.slot 0]]⟩⟩]

end Collections

open Collections in
/-- The list in the map that is resolved last stands beside the list of rows in
the declared view of a grid. -/
theorem Pool.answers_wellFormed_grid :
    let outcome :=
      (Scene.empty.performAll answer gridRequests).run (.empty false false)
    let catalog := outcome.1.2.registry.catalog
    ∃ known, .types [some known] ∈ outcome.1.1 ∧ known.WellFormed catalog ∧
      catalog.path 4 known.id = some gridSteps ∧
      (catalog.viewPatterns 4 gridSteps).length = known.slots.length ∧
      ∃ other, known.slot? 1 = some other ∧
        (Pattern.apply 1 [.var 0]).Aligned other := by
  intro outcome catalog
  obtain ⟨held, _, along⟩ := answers_wellFormed false false gridRequests
  let strings : Ty := ⟨1, "List", [some ⟨3, "String", [], some 0⟩], some 1⟩
  let known : Ty :=
    ⟨2, "Map", [some ⟨3, "String", [], some 0⟩, some strings], some 2⟩
  have answered : .types [some known] ∈ outcome.1.1 :=
    List.mem_of_getElem? (i := 7) rfl
  have fits : known.WellFormed catalog :=
    held _ answered known List.mem_cons_self
  have path : catalog.path 4 known.id = some gridSteps := rfl
  have patterns : (catalog.viewPatterns 4 gridSteps)[1]? =
      some (.apply 1 [.var 0]) := rfl
  obtain ⟨_, _, lengths, aligned⟩ := along known fits 4 gridSteps path
  exact ⟨known, answered, fits, path, lengths, strings, rfl,
    aligned 1 _ strings patterns rfl⟩

end NominalTypes
