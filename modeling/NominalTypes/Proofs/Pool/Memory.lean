import NominalTypes.Proofs.Pool.Growth
import NominalTypes.Proofs.Pool.Requests
import NominalTypes.Proofs.Session.Results

namespace NominalTypes

/-! What a pool remembers, apart from the values that it has handed out, and
what a request does to it. -/

/-- The part of a pool that is about remembered types. -/
structure Pool.Memory where
  memoize : Bool
  remembered : List Ty
  generation : Nat
  hits : Nat
  misses : Nat

def Pool.memory (pool : Pool) : Pool.Memory :=
  ⟨pool.memoize, pool.remembered, pool.generation, pool.hits, pool.misses⟩

/-- What a request comes to for the memory of a pool. -/
inductive Effect where
  | built (ty : Ty)
  | linked
  | cleared
  | idle

namespace Effect

def ofBuilt : Answer → Effect
  | .types [some ty] => .built ty
  | _ => .idle

def ofLink : Answer → Effect
  | .linked => .linked
  | _ => .idle

def ofQuestion {α : Type} : Question α → Answer → Effect
  | .resolve _ _, answer | .resolveRaw _, answer => ofBuilt answer
  | .clear, _ => .cleared
  | _, _ => .idle

/-- The effect of a request, as its answer tells it. -/
def of : Request → Answer → Effect
  | .declare _ _ _, _ => .idle
  | .setSuperclass _ _ _, answer | .addInterface _ _ _, answer => ofLink answer
  | .ask question, answer => ofQuestion question answer

theorem ofLink_cases (answer : Answer) :
    ofLink answer = .linked ∨ ofLink answer = .idle := by
  unfold ofLink
  split
  · exact .inl rfl
  · exact .inr rfl

theorem ofBuilt_cases (answer : Answer) :
    (∃ ty, ofBuilt answer = .built ty) ∨ ofBuilt answer = .idle := by
  unfold ofBuilt
  split
  · exact .inl ⟨_, rfl⟩
  · exact .inr rfl

theorem ofQuestion_missing {α : Type} (question : Question α) (ty : Ty) :
    ofQuestion question .missing ≠ .built ty := by
  cases question <;> simp [ofQuestion, ofBuilt]

theorem ofQuestion_replace {α β : Type} {image : α → Option β}
    {question : Question α} {replaced : Question β}
    (found : question.replace image = some replaced) (answer : Answer) :
    ofQuestion replaced answer = ofQuestion question answer := by
  cases question with
  | resolveRaw id =>
      cases found
      rfl
  | clear =>
      cases found
      rfl
  | same ty other =>
      obtain ⟨first, _, found⟩ := Option.bind_eq_some_iff.mp found
      obtain ⟨second, _, equality⟩ := Option.bind_eq_some_iff.mp found
      cases equality
      rfl
  | _ =>
      obtain ⟨image, _, equality⟩ := Option.bind_eq_some_iff.mp found
      cases equality
      rfl

/-- By how much the generation of the declarations advances. -/
def advance : Effect → Nat
  | .linked => 1
  | _ => 0

theorem advance_ofQuestion {α : Type} (question : Question α)
    (answer : Answer) : (ofQuestion question answer).advance = 0 := by
  have built : (ofBuilt answer).advance = 0 := by
    rcases ofBuilt_cases answer with ⟨ty, same⟩ | same <;> rw [same] <;> rfl
  cases question with
  | resolve id args | resolveRaw id => exact built
  | _ => rfl

end Effect

namespace Pool.Memory

/-- The remembered types that are of a generation. -/
def current (memory : Memory) (generation : Nat) : List Ty :=
  if memory.generation = generation then memory.remembered else []

/-- The memory after a type has been built: it has been found among those of the
same generation, or it is a new one. -/
def build (memory : Memory) (generation : Nat) (ty : Ty) : Memory :=
  let remembered := memory.current generation
  if !memory.memoize then memory
  else if remembered.any (· == ty) then
    { memory with remembered, generation, hits := memory.hits + 1 }
  else { memory with
    remembered := ty :: remembered, generation, misses := memory.misses + 1 }

def after (memory : Memory) (generation : Nat) : Effect → Memory
  | .built ty => memory.build generation ty
  | .cleared => { memory with remembered := [], hits := 0, misses := 0 }
  | .linked | .idle => memory

end Pool.Memory

namespace Pool

variable {catalog : Catalog} {α β : Type}

/-- The computation changes the memory of every pool as its result tells. -/
def Changes (action : PoolM α) (change : Memory → α → Memory) : Prop :=
  ∀ pool : Pool, (action.run pool).2.memory =
    change pool.memory (action.run pool).1

/-- The computation leaves the memory of every pool as it is. -/
def Keeps (action : PoolM α) : Prop :=
  ∀ pool : Pool, (action.run pool).2.memory = pool.memory

namespace Keeps

theorem of_pure (value : α) : Keeps (pure value) := fun _ => rfl

theorem of_get : Keeps (get : PoolM Pool) := fun _ => rfl

theorem of_modify {change : Pool → Pool}
    (keeps : ∀ pool : Pool, (change pool).memory = pool.memory) :
    Keeps (modify change) :=
  keeps

theorem bind {action : PoolM α} {rest : α → PoolM β} (first : Keeps action)
    (next : ∀ value, Keeps (rest value)) : Keeps (action >>= rest) :=
  fun pool => (next _ _).trans (first pool)

theorem lift_bind {ε : Type} {action : PoolM α} {rest : α → ExceptT ε PoolM β}
    (first : Keeps action) (next : ∀ value, Keeps (rest value).run) :
    Keeps ((liftM action : ExceptT ε PoolM α) >>= rest).run :=
  first.bind next

theorem map {action : PoolM α} (keeps : Keeps action) (change : α → β) :
    Keeps (do return change (← action)) :=
  keeps.bind fun _ => of_pure _

theorem bind_changes {action : PoolM α} {rest : α → PoolM β}
    {change : Memory → β → Memory} (first : Keeps action)
    (next : ∀ value, Changes (rest value) change) :
    Changes (action >>= rest) change := by
  intro pool
  rw [← first pool]
  exact next _ _

end Keeps

theorem keeps_startQuery (operation : Operation) (input : TypeId)
    (target : Option TypeId) : Keeps (startQuery operation input target) := by
  intro pool
  change (if pool.tracing then _ else (pool.nextQuery, pool)).2.memory =
    pool.memory
  split <;> rfl

theorem keeps_endQuery (query : Nat) (operation : Operation)
    (ok remembered : Bool) : Keeps (endQuery query operation ok remembered) :=
  .of_modify fun pool => by split <;> rfl

theorem keeps_keep (ty : Ty) : Keeps (keep ty) := fun _ => rfl

theorem keeps_keepAll (types : List Ty) : Keeps (keepAll types) := by
  induction types with
  | nil => exact .of_pure _
  | cons ty rest ih =>
      exact (keeps_keep ty).bind fun first => ih.map (first :: ·)

/-! Questions that build nothing. -/

theorem keeps_computeParents (ty : Ty) : Keeps (computeParents catalog ty) := by
  have kept : ∀ superclass : Option Ty, Keeps (superclass.mapM keep) := by
    rintro (_ | superclass)
    · exact .of_pure _
    · exact (keeps_keep superclass).map some
  refine (kept _).bind fun superclass =>
    (keeps_keepAll _).bind fun interfaces => ?_
  split
  · refine Keeps.bind (.of_modify fun _ => rfl) fun _ => ?_
    exact .of_pure _
  · exact .of_pure _

theorem keeps_parentTypes (ty : Ty) : Keeps (parentTypes catalog ty) := by
  refine Keeps.of_get.bind fun pool => ?_
  split
  · split
    · exact .of_pure _
    · exact keeps_computeParents ty
  · exact keeps_computeParents ty

theorem keeps_climb (ty : Ty) (steps : List Step) :
    Keeps (climbUsing (parentTypes catalog) ty steps) := by
  induction steps generalizing ty with
  | nil => exact .of_pure _
  | cons step rest ih =>
      refine (keeps_parentTypes ty).bind fun parents => ?_
      split
      · exact .of_pure _
      · exact ih _

theorem keeps_viewAs (ty : Ty) (target : TypeId) :
    Keeps (viewAs catalog ty target).run := by
  have keeps : Keeps (viewAs? catalog ty target) := by
    rw [viewAs?]
    split
    · exact .of_pure _
    · exact keeps_climb ty _
  refine keeps.lift_bind fun found => ?_
  cases found with
  | none => exact .of_pure (Except.error _)
  | some view => exact .of_pure (Except.ok view)

theorem keeps_infer (known : Ty) (target : TypeId) :
    Keeps (infer catalog known target).run := by
  have keeps : Keeps (inferQuietly catalog known target).run := by
    rw [inferQuietly]
    cases catalog.infer known target with
    | error error => exact .of_pure _
    | ok ty => exact (keeps_keep ty).map Except.ok
  refine (keeps_startQuery _ _ _).bind fun query => keeps.bind fun result => ?_
  exact (keeps_endQuery _ _ _ _).bind fun _ => .of_pure _

theorem keeps_expandAll {expand : Ty → PoolM (List Ty)}
    (each : ∀ ty, Keeps (expand ty)) (level : List Ty) :
    Keeps (expandAll expand level) := by
  induction level with
  | nil => exact .of_pure _
  | cons ty rest ih => exact (each ty).bind fun first => ih.map (first ++ ·)

theorem keeps_walk {expand : Ty → PoolM (List Ty)}
    (each : ∀ ty, Keeps (expand ty)) (levels : Nat) (seen : Std.TreeSet TypeId)
    (level : List Ty) : Keeps (walk Ty.id expand levels seen level) := by
  induction levels generalizing seen level with
  | zero => exact .of_pure _
  | succ levels ih =>
      refine (keeps_expandAll each level).bind fun candidates => ?_
      dsimp only
      split
      · exact .of_pure _
      · exact (ih _ _).map _

theorem keeps_ancestors (ty : Ty) : Keeps (ancestors catalog ty) :=
  keeps_walk (fun ty => (keeps_parentTypes ty).map _) _ _ _

/-! Questions that build a type. -/

theorem changes_intern (operation : Operation) (id : TypeId)
    (slots : List (Option Ty)) :
    Changes (intern catalog operation id slots)
      (Memory.build · catalog.generation) := by
  refine (keeps_startQuery operation id none).bind_changes fun query pool => ?_
  let built : Ty := ⟨id, catalog.name id, slots, none⟩
  rw [StateT.run_bind, StateT.run_get, pure_bind]
  dsimp only
  split
  · rename_i plain
    have keeps := (keeps_keep built).bind fun ty =>
      (keeps_endQuery query operation true false).bind fun _ => .of_pure ty
    refine (keeps pool).trans ?_
    exact (if_pos plain).symm
  · rename_i memoizes
    split
    · rename_i ty found
      refine (keeps_endQuery query operation true true _).trans ?_
      have again : (pool.memory.current catalog.generation).any (· == ty) =
          true :=
        List.any_eq_true.mpr ⟨ty, List.mem_of_find?_eq_some found, BEq.rfl⟩
      exact ((if_neg memoizes).trans (if_pos again)).symm
    · rename_i missing
      refine (keeps_endQuery query operation true false _).trans ?_
      have fresh :
          (pool.memory.current catalog.generation).any
              (· == ((keep built).run pool).1) =
            false := by
        rw [List.any_eq_false]
        intro earlier member same
        exact List.find?_eq_none.mp missing earlier member
          (BEq.trans same (returns_keep built pool))
      exact ((if_neg memoizes).trans (if_neg (Bool.not_eq_true _ ▸ fresh))).symm

theorem changes_lift {action : PoolM Ty}
    (changes : Changes action (Memory.build · catalog.generation)) :
    Changes (ExceptT.lift action : ExceptT TypeError PoolM Ty).run
      fun memory result =>
        memory.after catalog.generation (.ofBuilt (.ofResult result)) :=
  changes

theorem changes_resolve (id : TypeId) (args : List Ty) :
    Changes (resolve catalog id args).run fun memory result =>
      memory.after catalog.generation (.ofBuilt (.ofResult result)) := by
  rw [resolve]
  cases catalog.contains id with
  | false => exact fun _ => rfl
  | true =>
      cases catalog.bindSlots id args with
      | error error => exact fun _ => rfl
      | ok slots => exact changes_lift (changes_intern .resolve id slots)

theorem changes_resolveRaw (id : TypeId) :
    Changes (resolveRaw catalog id).run fun memory result =>
      memory.after catalog.generation (.ofBuilt (.ofResult result)) := by
  rw [resolveRaw]
  cases catalog.contains id with
  | false => exact fun _ => rfl
  | true => exact changes_lift (changes_intern .resolveRaw id _)

theorem changes_answer (question : Question Ty) :
    Changes (answer catalog question) fun memory answer =>
      memory.after catalog.generation (.ofQuestion question answer) := by
  cases question with
  | resolve id args => exact changes_resolve id args
  | resolveRaw id => exact changes_resolveRaw id
  | infer known target => exact (keeps_infer known target).map _
  | viewAs ty target | slotsAs ty target => exact (keeps_viewAs ty target).map _
  | superclass ty | interfaces ty | parentAlong ty edge =>
      exact (keeps_parentTypes ty).map _
  | fullDescription ty =>
      have keeps : Keeps (fullDescription catalog ty) :=
        (keeps_parentTypes ty).map _
      exact keeps.map _
  | ancestors ty => exact (keeps_ancestors ty).map _
  | slot ty index | brief ty | signature ty | same ty other =>
      exact fun _ => rfl
  | clear => exact fun _ => rfl

end Pool

/-! Requests. -/

namespace Scene

variable (scene : Scene)

theorem memory_perform (request : Request) (pool : Pool) :
    ((scene.perform Pool.answer request).run pool).2.memory =
      pool.memory.after scene.registry.catalog.generation
        (.of request ((scene.perform Pool.answer request).run pool).1.1) := by
  have settled : ∀ outcome,
      pool.memory = pool.memory.after scene.registry.catalog.generation
      (.ofLink (scene.settle outcome).1) := by
    rintro (error | registry) <;> rfl
  cases request with
  | declare kind name params => rfl
  | setSuperclass owner parent args | addInterface owner parent args =>
      rw [perform]
      cases Draft.terms scene.shelf args with
      | none => rfl
      | some terms => exact settled _
  | ask question =>
      rw [perform]
      cases found : question.replace fun place => scene.shelf[place]? with
      | none =>
          cases question with
          | clear => cases found
          | _ => rfl
      | some replaced =>
          refine (Pool.changes_answer replaced pool).trans ?_
          dsimp only
          rw [Effect.ofQuestion_replace found]
          rfl

theorem generation_perform (request : Request) (pool : Pool) :
    ((scene.perform Pool.answer request).run pool).1.2.registry.catalog.generation =
      scene.registry.catalog.generation +
        (Effect.of request
          ((scene.perform Pool.answer request).run pool).1.1).advance := by
  have settled : ∀ outcome, (∀ registry, outcome = .ok registry →
      registry.catalog.generation = scene.registry.catalog.generation + 1) →
      (scene.settle outcome).2.registry.catalog.generation =
        scene.registry.catalog.generation +
            (Effect.ofLink (scene.settle outcome).1).advance := by
    rintro (error | registry) advanced
    · rfl
    · exact advanced registry rfl
  cases request with
  | declare kind name params => rfl
  | setSuperclass owner parent args =>
      rw [perform]
      cases Draft.terms scene.shelf args with
      | none => rfl
      | some terms =>
          exact settled _ fun _ => Registry.generation_of_setSuperclass
  | addInterface owner parent args =>
      rw [perform]
      cases Draft.terms scene.shelf args with
      | none => rfl
      | some terms =>
          exact settled _ fun _ => Registry.generation_of_addInterface
  | ask question =>
      rw [Effect.of, Effect.advance_ofQuestion, perform]
      cases question.replace fun place => scene.shelf[place]? <;> rfl

end Scene

end NominalTypes
