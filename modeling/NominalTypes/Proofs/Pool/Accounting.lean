import Mathlib.Data.List.Pairwise
import NominalTypes.Proofs.Pool.Memory

namespace NominalTypes

/-! The counters of a pool account for the calls that have built types.

A history holds the effects of the requests so far, the latest first. -/

namespace Ty

/-- The types without those that equal an earlier one.  The
earliest stands last. -/
def distinct (types : List Ty) : List Ty :=
  types.pwFilter fun ty other => (ty == other) = false

theorem distinct_cons (ty : Ty) (types : List Ty) :
    distinct (ty :: types) =
      if (distinct types).any (· == ty) then distinct types
        else ty :: distinct types := by
  have new_iff : (∀ other ∈ distinct types, (ty == other) = false) ↔
      ¬ (distinct types).any (· == ty) = true := by
    simp [BEq.comm (a := ty)]
  by_cases new : ∀ other ∈ distinct types, (ty == other) = false
  · rw [if_neg (new_iff.mp new)]
    exact List.pwFilter_cons_of_pos new
  · rw [if_pos (not_not.mp (mt new_iff.mpr new))]
    exact List.pwFilter_cons_of_neg new

theorem any_distinct (types : List Ty) (ty : Ty) :
    (distinct types).any (· == ty) = types.any (· == ty) := by
  induction types with
  | nil => rfl
  | cons first rest ih =>
      rw [distinct_cons, List.any_cons, ← ih]
      split
      · rename_i old
        obtain ⟨earlier, member, same⟩ := List.any_eq_true.mp old
        cases equal : first == ty with
        | false => rfl
        | true =>
            exact List.any_eq_true.mpr ⟨earlier, member, BEq.trans same equal⟩
      · rfl

end Ty

namespace Effect

/-- The types that have been built since the memory was cleared. -/
def sinceClear : List Effect → List Ty
  | [] | .cleared :: _ => []
  | .built ty :: past => ty :: sinceClear past
  | .linked :: past | .idle :: past => sinceClear past

/-- The types that have been built since the memory was cleared and since
the last link. -/
def sinceLink : List Effect → List Ty
  | [] | .cleared :: _ | .linked :: _ => []
  | .built ty :: past => ty :: sinceLink past
  | .idle :: past => sinceLink past

def history (requests : List Request) (answers : List Answer) : List Effect :=
  (List.zipWith of requests answers).reverse

theorem of_eq_cleared_iff (request : Request) (answer : Answer) :
    of request answer = .cleared ↔ request = .ask .clear := by
  refine ⟨fun cleared => ?_, fun asks => asks ▸ rfl⟩
  cases request with
  | declare kind name params => cases cleared
  | setSuperclass owner parent args | addInterface owner parent args =>
      rcases ofLink_cases answer with same | same <;>
        cases same.symm.trans cleared
  | ask question =>
      cases question with
      | resolve id args | resolveRaw id =>
          rcases ofBuilt_cases answer with ⟨ty, same⟩ | same <;>
            cases same.symm.trans cleared
      | clear => rfl
      | _ => cases cleared

theorem history_cons (request : Request) (requests : List Request)
    (answer : Answer) (answers : List Answer) (past : List Effect) :
    history (request :: requests) (answer :: answers) ++ past =
      history requests answers ++ of request answer :: past := by
  rw [history, List.zipWith_cons_cons, List.reverse_cons, List.append_assoc]
  rfl

end Effect

open Effect (sinceClear sinceLink)

namespace Pool.Memory

/-- A memory that remembers one of each of the types built in the generation,
and has counted all that were built.  What it remembers of another generation
does not matter: it is forgotten before it is used. -/
structure Accounts (memory : Memory) (generation : Nat)
    (past : List Effect) : Prop where
  memoizes : memory.memoize = true
  bounded : memory.generation ≤ generation
  remembered : memory.current generation = Ty.distinct (sinceLink past)
  counted : memory.hits + memory.misses = (sinceClear past).length

/-- How an effect changes the counters and the number of the
remembered types. -/
def Recounts (memory after : Memory) (past : List Effect) : Effect → Prop
  | .built ty =>
    (if (sinceLink past).any (· == ty) then
      after.hits = memory.hits + 1 ∧ after.misses = memory.misses
    else after.hits = memory.hits ∧ after.misses = memory.misses + 1) ∧
      after.remembered.length = (Ty.distinct (ty :: sinceLink past)).length
  | .cleared => after.hits = 0 ∧ after.misses = 0 ∧ after.remembered.length = 0
  | .linked | .idle =>
    after.hits = memory.hits ∧ after.misses = memory.misses ∧
      after.remembered.length = memory.remembered.length

variable {memory : Memory} {generation : Nat} {past : List Effect}

theorem Accounts.build_eq
    (accounts : memory.Accounts generation past) (ty : Ty) :
    memory.build generation ty =
      if (sinceLink past).any (· == ty) then
        { memory with
          remembered := Ty.distinct (ty :: sinceLink past)
          generation
          hits := memory.hits + 1 }
      else
        { memory with
          remembered := Ty.distinct (ty :: sinceLink past)
          generation
          misses := memory.misses + 1 } := by
  have memoizes : ¬ (!memory.memoize) = true := by simp [accounts.memoizes]
  rw [build, if_neg memoizes, accounts.remembered, Ty.distinct_cons,
    Ty.any_distinct]
  split <;> rfl

theorem Accounts.after (accounts : memory.Accounts generation past)
    (effect : Effect) :
    (memory.after generation effect).Accounts (generation + effect.advance)
      (effect :: past) := by
  cases effect with
  | built ty =>
      have counted := accounts.counted
      rw [Memory.after, accounts.build_eq]
      split
      · refine ⟨accounts.memoizes, Nat.le_refl _, if_pos rfl, ?_⟩
        simp only [sinceClear, List.length_cons]
        omega
      · refine ⟨accounts.memoizes, Nat.le_refl _, if_pos rfl, ?_⟩
        simp only [sinceClear, List.length_cons]
        omega
  | linked =>
      -- Everything that is remembered is now of an earlier generation.
      have older : memory.generation ≠ generation + 1 :=
        Nat.ne_of_lt (Nat.lt_succ_of_le accounts.bounded)
      exact ⟨accounts.memoizes, Nat.le_succ_of_le accounts.bounded,
        if_neg older, accounts.counted⟩
  | cleared => exact ⟨accounts.memoizes, accounts.bounded, ite_self _, rfl⟩
  | idle =>
      exact ⟨accounts.memoizes, accounts.bounded, accounts.remembered,
        accounts.counted⟩

theorem Accounts.recounts (accounts : memory.Accounts generation past)
    (effect : Effect) :
    memory.Recounts (memory.after generation effect) past effect := by
  cases effect with
  | built ty =>
      rw [Memory.after, accounts.build_eq, Recounts]
      split
      · exact ⟨⟨rfl, rfl⟩, rfl⟩
      · exact ⟨⟨rfl, rfl⟩, rfl⟩
  | cleared | linked | idle => exact ⟨rfl, rfl, rfl⟩

theorem accounts_empty (tracing : Bool) (generation : Nat) :
    (Pool.empty true tracing).memory.Accounts generation [] :=
  ⟨rfl, Nat.zero_le _, ite_self _, rfl⟩

end Pool.Memory

/-! Runs. -/

theorem Scene.accounts_performAll {scene : Scene} {pool : Pool}
    {past : List Effect}
    (accounts : pool.memory.Accounts scene.registry.catalog.generation past)
    (requests : List Request) :
    ((scene.performAll Pool.answer requests).run pool).2.memory.Accounts
      ((scene.performAll Pool.answer requests).run
        pool).1.2.registry.catalog.generation
      (Effect.history requests
        ((scene.performAll Pool.answer requests).run pool).1.1 ++ past) := by
  induction requests generalizing scene pool past with
  | nil => exact accounts
  | cons request rest ih =>
      have next :=
        accounts.after
          (.of request ((scene.perform Pool.answer request).run pool).1.1)
      rw [← scene.memory_perform, ← scene.generation_perform] at next
      have later := ih next
      rw [← Effect.history_cons] at later
      exact later

/-! What the calls ask for. -/

/-- The type that a question asks to be built, if it is such a question. -/
def Catalog.asked (catalog : Catalog) :
    Question Ty → Option (Except TypeError Ty)
  | .resolve id args => some (catalog.resolve id args)
  | .resolveRaw id => some (catalog.resolveRaw id)
  | _ => none

def Scene.asked (scene : Scene) : Request → Option (Except TypeError Ty)
  | .ask question =>
    (question.replace fun place =>
      scene.shelf[place]?).bind scene.registry.catalog.asked
  | _ => none

/-- What has been built is what was asked for; where nothing could be built,
nothing has been built. -/
def Effect.Meets : Option (Except TypeError Ty) → Effect → Prop
  | some (.ok asked), effect => ∃ ty, effect = .built ty ∧ (ty == asked) = true
  | _, effect => ∀ ty, effect ≠ .built ty

namespace Effect

theorem meets_ofBuilt {asked result : Except TypeError Ty}
    (same : SameOutcome Ty.Equal result asked) :
    Meets (some asked) (ofBuilt (.ofResult result)) := by
  cases same with
  | ok same => exact ⟨_, rfl, same⟩
  | error error => exact nofun

end Effect

theorem Pool.returns_answer_asked {catalog : Catalog} (question : Question Ty) :
    Returns (answer catalog question) fun answer =>
      Effect.Meets (catalog.asked question) (.ofQuestion question answer) := by
  cases question with
  | resolve id args =>
      have equal : List.Forall₂ Ty.Equal args args :=
        List.forall₂_same.mpr fun _ _ => BEq.rfl
      exact (returns_resolve id equal).bind fun _ same =>
        .of_pure (Effect.meets_ofBuilt same)
  | resolveRaw id =>
      exact (returns_resolveRaw id).bind fun _ same =>
        .of_pure (Effect.meets_ofBuilt same)
  | _ => exact fun _ => nofun

theorem Scene.meets_perform (scene : Scene) (request : Request) (pool : Pool) :
    Effect.Meets (scene.asked request)
      (.of request ((scene.perform Pool.answer request).run pool).1.1) := by
  cases request with
  | declare kind name params => exact nofun
  | setSuperclass owner parent args | addInterface owner parent args =>
      intro ty built
      rcases Effect.ofLink_cases _ with same | same <;>
        cases same.symm.trans built
  | ask question =>
      rw [asked, perform]
      cases found : question.replace fun place => scene.shelf[place]? with
      | none => exact Effect.ofQuestion_missing question
      | some replaced =>
          rw [Option.bind_some, Effect.of, ← Effect.ofQuestion_replace found]
          exact Pool.returns_answer_asked replaced pool

/-- Requests are made of declarations, with a pool that memoizes, in any order,
and then one more.

Calls that have built a type have built what they asked for.  The hits and the
misses together are the calls that have built a type since the pool was made or
cleared.  Such a call is a hit if an equal type has been built since then and
since the last link, and else a miss; afterwards the pool remembers as many
types as have been built in that time, without those that equal another.
Clearing sets everything to zero, and nothing else changes anything. -/
theorem Pool.counters_account (scene : Scene) (tracing : Bool)
    (requests : List Request) (request : Request) :
    let run := (scene.performAll answer requests).run (.empty true tracing)
    let past := Effect.history requests run.1.1
    let next := (run.1.2.perform answer request).run run.2
    let effect := Effect.of request next.1.1
    effect.Meets (run.1.2.asked request) ∧
      (effect = .cleared ↔ request = .ask .clear) ∧
      run.2.hits + run.2.misses = (sinceClear past).length ∧
      run.2.memory.Recounts next.2.memory past effect := by
  intro run past next effect
  have accounts :
      run.2.memory.Accounts run.1.2.registry.catalog.generation past := by
    have started :=
      Memory.accounts_empty tracing scene.registry.catalog.generation
    have accounts := Scene.accounts_performAll started requests
    rw [List.append_nil] at accounts
    exact accounts
  have recounts := accounts.recounts effect
  rw [← run.1.2.memory_perform] at recounts
  exact ⟨run.1.2.meets_perform request run.2,
    Effect.of_eq_cleared_iff request _, accounts.counted,
    recounts⟩

/-- After a link the type is built again, and the old one is no
longer remembered. -/
example :
    let requests : List Request := [.declare .interfaceType "List" ["E"],
      .declare .classType "ArrayList" ["E"], .ask (.resolveRaw 2),
      .ask (.resolveRaw 2),
      .addInterface 2 1 [.slot 0], .ask (.resolveRaw 2)]
    let pool :=
      ((Scene.empty.performAll Pool.answer requests).run (.empty true false)).2
    (pool.hits, pool.misses, pool.remembered.length) = (1, 2, 1) := by
  rfl

end NominalTypes
