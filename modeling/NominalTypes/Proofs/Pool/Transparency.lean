import NominalTypes.Proofs.Pool.Runs
import NominalTypes.Proofs.Session.Recomputation

namespace NominalTypes

/-! Nothing that a pool remembers or keeps can be told from its answers. -/

/-- The pool without what it remembers, as a new session takes it over.  The
values that have been handed out stay, and with them what is kept for them. -/
def Pool.renewed (pool : Pool) (memoize tracing : Bool) : Pool :=
  { pool with
    memoize, tracing, remembered := [], generation := 0, hits := 0,
      misses := 0 }

theorem Pool.Faithful.renewed {catalog : Catalog} {values : List Ty}
    {pool : Pool} (faithful : pool.Faithful catalog values)
    (memoize tracing : Bool) :
    (pool.renewed memoize tracing).Faithful catalog values :=
  (faithful.remember (List.forall_mem_nil _)).of_eq rfl rfl rfl

/-- Declarations, accepted and refused links, and questions come in any order,
and questions may be about any types from earlier answers.  All answers are,
apart from handles, those that are computed anew from the declarations as they
are at the time, whether built types are remembered or not.  So are the outputs
of commands afterwards. -/
theorem Pool.answers_eq_recomputed (memoize tracing : Bool)
    (requests : List Request) :
    let outcome :=
      (Scene.empty.performAll answer requests).run (.empty memoize tracing)
    let recomputed := Scene.empty.recomputeAll requests
    outcome.1.1.map Answer.bare = recomputed.1 ∧
      ∀ (memoize tracing : Bool) (commands : List (Format × Bool × Command)),
        ((Session.executeAll outcome.1.2.registry commands).run
            (outcome.2.renewed memoize tracing)).1 =
          commands.map fun (format, color, command) =>
            recomputed.2.registry.output format color command := by
  obtain ⟨values, _, served, same⟩ :=
    (Scene.servedBy_empty memoize tracing).performAll requests
  rw [Scene.bare_empty] at same
  refine ⟨(congrArg Prod.fst same).symm, fun memoize tracing commands => ?_⟩
  obtain ⟨_, _, _, outputs⟩ :=
    Session.yields_executeAll commands _
      (served.faithful.renewed memoize tracing)
  rw [same]
  exact outputs

/-- A value from before a link has the new parent afterwards. -/
example :
    let requests : List Request := [.declare .interfaceType "List" ["E"],
      .declare .classType "ArrayList" ["E"], .ask (.resolveRaw 2),
      .ask (.interfaces 0),
      .addInterface 2 1 [.slot 0], .ask (.interfaces 0)]
    ((Scene.empty.performAll Pool.answer requests).run
        (.empty true false)).1.1.map Answer.bare =
      [.declared 1, .declared 2, .types [some ⟨2, "ArrayList", [none], none⟩],
        .types [], .linked, .types [some ⟨1, "List", [none], none⟩]] := by
  rfl

end NominalTypes
