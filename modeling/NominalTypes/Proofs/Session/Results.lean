import NominalTypes.Proofs.Session.Recomputation

namespace NominalTypes

/-! What types the texts of a session stand for.  Whatever the pool holds, it is
a type with the value that would be computed without one. -/

namespace Ty

theorem sameSlots_withHandles {slots : List (Option Ty)}
    (each : ∀ inner,
      some inner ∈ slots → ∀ next, ((inner.withHandles next).1 == inner) = true)
    (next : Nat) : sameSlots (slotsWithHandles next slots).1 slots = true := by
  induction slots generalizing next with
  | nil => rfl
  | cons slot slots ih =>
      have later := ih fun inner member =>
        each inner (List.mem_cons_of_mem slot member)
      cases slot with
      | none =>
          rw [slotsWithHandles, sameSlots, Bool.and_eq_true]
          exact ⟨rfl, later _⟩
      | some inner =>
          rw [slotsWithHandles, sameSlots, Bool.and_eq_true]
          exact ⟨each inner List.mem_cons_self next, later _⟩

theorem withHandles_beq (ty : Ty) (next : Nat) :
    ((ty.withHandles next).1 == ty) = true := by
  induction ty generalizing next with
  | mk id name slots handle ih =>
      cases handle with
      | some handle => exact BEq.rfl
      | none =>
          rw [withHandles]
          exact (beq_iff_id_slots _ _).mpr ⟨rfl, sameSlots_withHandles ih next⟩

abbrev Equal (first second : Ty) : Prop := (first == second) = true

theorem sameSlots_of_forall₂ {types others : List Ty}
    (each : List.Forall₂ Equal types others) :
    sameSlots (types.map some) (others.map some) = true := by
  induction each with
  | nil => rfl
  | cons same _ ih =>
      rw [List.map_cons, List.map_cons, sameSlots, Bool.and_eq_true]
      exact ⟨same, ih⟩

end Ty

/-- The same failure, or results that are related. -/
inductive SameOutcome {ε α : Type} (related : α → α → Prop) :
    Except ε α → Except ε α → Prop
  | ok {first second : α} (same : related first second) :
      SameOutcome related (.ok first) (.ok second)
  | error (error : ε) : SameOutcome related (.error error) (.error error)

namespace SameOutcome

variable {ε α : Type} {related : α → α → Prop}

theorem exists_of_ok_right {first : Except ε α} {value : α}
    (same : SameOutcome related first (.ok value)) :
    ∃ other, first = .ok other ∧ related other value := by
  cases same with
  | ok same => exact ⟨_, rfl, same⟩

theorem exists_of_ok_left {second : Except ε α} {value : α}
    (same : SameOutcome related (.ok value) second) :
    ∃ other, second = .ok other ∧ related value other := by
  cases same with
  | ok same => exact ⟨_, rfl, same⟩

theorem mapError {φ : Type} {first second : Except ε α}
    (same : SameOutcome related first second) (convert : ε → φ) :
    SameOutcome related (first.mapError convert) (second.mapError convert) := by
  cases same with
  | ok same => exact .ok same
  | error error => exact .error _

end SameOutcome

namespace Pool

variable {catalog : Catalog}

/-- The condition holds of what is computed, whatever the pool is. -/
def Returns {α : Type} (action : PoolM α) (condition : α → Prop) : Prop :=
  ∀ pool : Pool, condition (action.run pool).1

namespace Returns

variable {α β : Type}

theorem of_pure {value : α} {condition : α → Prop} (holds : condition value) :
    Returns (pure value) condition :=
  fun _ => holds

theorem bind {action : PoolM α} {rest : α → PoolM β} {between : α → Prop}
    {condition : β → Prop} (first : Returns action between)
    (next : ∀ value, between value → Returns (rest value) condition) :
    Returns (action >>= rest) condition :=
  fun pool => next _ (first pool) _

theorem any (action : PoolM α) :
    Returns action fun _ => True := fun _ => trivial

/-- What a computation does with a pool agrees with what is computed without
one, if each of its parts does. -/
theorem same_bind {ε : Type} {action : ExceptT ε PoolM α}
    {rest : α → ExceptT ε PoolM β} {expected : Except ε α}
    {expectedRest : α → Except ε β} {first : α → α → Prop}
    {second : β → β → Prop}
    (start : Returns action.run (SameOutcome first · expected))
    (next : ∀ value other, first value other →
      Returns (rest value).run (SameOutcome second · (expectedRest other))) :
    Returns (action >>= rest).run
      (SameOutcome second · (expected >>= expectedRest)) := by
  rw [ExceptT.run_bind]
  refine start.bind fun result same => ?_
  cases same with
  | ok same => exact next _ _ same
  | error error => exact .of_pure (.error error)

end Returns

theorem returns_keep (ty : Ty) :
    Returns (keep ty) fun kept => (kept == ty) = true :=
  fun pool => ty.withHandles_beq pool.nextHandle

theorem returns_intern (operation : Operation) (id : TypeId)
    (slots : List (Option Ty)) :
    Returns (intern catalog operation id slots) fun ty =>
      (ty == ⟨id, catalog.name id, slots, none⟩) = true := by
  refine (Returns.any _).bind fun query _ => ?_
  refine (Returns.any _).bind fun pool _ => ?_
  split
  · refine (returns_keep _).bind fun ty same => ?_
    exact (Returns.any _).bind fun _ _ => .of_pure same
  · generalize (if pool.generation = catalog.generation then pool.remembered
      else []) = remembered
    dsimp only
    split
    · rename_i ty found
      have equal : (ty == ⟨id, catalog.name id, slots, none⟩) = true :=
        List.find?_some (p := (· == _)) found
      refine (Returns.any _).bind fun _ _ => ?_
      exact (Returns.any _).bind fun _ _ => .of_pure equal
    · refine (returns_keep _).bind fun ty same => ?_
      refine (Returns.any _).bind fun _ _ => ?_
      exact (Returns.any _).bind fun _ _ => .of_pure same

theorem returns_lift {action : PoolM Ty} {ty : Ty}
    (returns : Returns action fun result => (result == ty) = true) :
    Returns (ExceptT.lift action : ExceptT TypeError PoolM Ty).run fun result =>
      SameOutcome Ty.Equal result (.ok ty) :=
  returns.bind fun _ same => .of_pure (.ok same)

theorem returns_resolve (id : TypeId) {args others : List Ty}
    (each : List.Forall₂ Ty.Equal args others) :
    Returns (resolve catalog id args).run fun result =>
      SameOutcome Ty.Equal result (catalog.resolve id others) := by
  rw [resolve, Catalog.resolve, Catalog.bindSlots, Catalog.bindSlots,
    each.length_eq]
  cases catalog.contains id with
  | false => exact .of_pure (.error _)
  | true =>
      by_cases complete : others.length = catalog.arity id
      · simp only [Bool.not_true, Bool.false_eq_true, if_false,
          complete, if_true]
        refine returns_lift fun pool =>
          BEq.trans (returns_intern .resolve id _ pool) ?_
        exact (Ty.beq_iff_id_slots _ _).mpr ⟨rfl, Ty.sameSlots_of_forall₂ each⟩
      · simp only [Bool.not_true, Bool.false_eq_true, if_false, complete]
        exact .of_pure (.error _)

theorem returns_resolveRaw (id : TypeId) :
    Returns (resolveRaw catalog id).run fun result =>
      SameOutcome Ty.Equal result (catalog.resolveRaw id) := by
  rw [resolveRaw, Catalog.resolveRaw, Catalog.raw]
  cases catalog.contains id with
  | false => exact .of_pure (.error _)
  | true => exact returns_lift (returns_intern .resolveRaw id _)

end Pool

namespace Session

open Pool (Returns)

variable {registry : Registry}

theorem returns_lookup (name : String) :
    Returns (lookup registry name).run
      (SameOutcome Eq · (registry.identify name)) := by
  rw [lookup, Registry.identify]
  cases registry.id? name with
  | none => exact .of_pure (.error _)
  | some id => exact .of_pure (.ok rfl)

theorem returns_adapt {action : ExceptT TypeError PoolM Ty}
    {expected : Except TypeError Ty}
    (returns : Returns action.run (SameOutcome Ty.Equal · expected)) :
    Returns (action.adapt CommandError.refused).run
      (SameOutcome Ty.Equal · (expected.mapError .refused)) :=
  returns.bind fun _ same => .of_pure (same.mapError _)

theorem returns_typesOfExprs {exprs : List Expr}
    (each : ∀ expr ∈ exprs, Returns (typeOfExpr registry expr).run
      (SameOutcome Ty.Equal · (registry.typeOfExpr expr))) :
    Returns (typesOfExprs registry exprs).run
      (SameOutcome (List.Forall₂ Ty.Equal) · (registry.typesOfExprs exprs)) := by
  induction exprs with
  | nil => exact .of_pure (.ok .nil)
  | cons expr rest ih =>
      rw [typesOfExprs, Registry.typesOfExprs]
      refine (each expr List.mem_cons_self).same_bind fun ty other same => ?_
      have later := ih fun expr member =>
        each expr (List.mem_cons_of_mem _ member)
      exact later.same_bind fun types others sames =>
        .of_pure (.ok (.cons same sames))

theorem returns_typeOfExpr (expr : Expr) :
    Returns (typeOfExpr registry expr).run
      (SameOutcome Ty.Equal · (registry.typeOfExpr expr)) := by
  induction expr with
  | hole => exact .of_pure (.error _)
  | named name args ih =>
      rw [typeOfExpr, Registry.typeOfExpr]
      refine (returns_lookup name).same_bind fun id other same => ?_
      subst same
      dsimp only
      split
      · exact returns_adapt (Pool.returns_resolveRaw id)
      · split
        · exact .of_pure (.error _)
        · split
          · exact .of_pure (.error _)
          · exact (returns_typesOfExprs ih).same_bind fun types others each =>
              returns_adapt (Pool.returns_resolve id each)

theorem returns_typeOf (text : String) :
    Returns (typeOf registry text).run
      (SameOutcome Ty.Equal · (registry.typeOf text)) := by
  rw [typeOf, Registry.typeOf]
  cases Expr.read text with
  | error error => exact .of_pure (.error _)
  | ok expr => exact returns_typeOfExpr expr

end Session

end NominalTypes
