import NominalTypes.Hierarchy.View
import Std.Data.TreeMap

/-! Pools: the types that have been handed out, what has been computed for them,
and the queries that asked for them.

A pool gives every value that it hands out a handle of its own.  Under the
handle it keeps the parents of the value, for as long as the generation of the
catalog stays the same. -/

namespace NominalTypes

/-- The questions whose beginning and end are recorded. -/
inductive Operation where
  | resolve
  | resolveRaw
  | infer
  deriving DecidableEq

inductive QueryEvent where
  | started (query : Nat) (operation : Operation) (input : TypeId)
      (target : Option TypeId)
  | ended (query : Nat) (operation : Operation) (ok : Bool) (remembered : Bool)

/-- The parents of a value, and the generation in which they were computed. -/
structure KeptParents where
  generation : Nat
  parents : ParentTypes

structure Pool where
  /-- Whether built types are remembered and handed out again. -/
  memoize : Bool
  /-- Whether queries are recorded. -/
  tracing : Bool
  /-- The remembered types, the latest first; all of them were built in
  `generation`. -/
  remembered : List Ty
  generation : Nat
  hits : Nat
  misses : Nat
  nextHandle : Nat
  kept : Std.TreeMap Nat KeptParents
  nextQuery : Nat
  /-- The recorded events, the latest first. -/
  events : List QueryEvent

/-- A computation that may use and change the pool. -/
abbrev PoolM := StateM Pool

namespace Ty

mutual

/-- Gives a handle to each part of a type that has none, starting with `next`,
and says which handle is next. -/
def withHandles (next : Nat) : Ty → Ty × Nat
  | ⟨id, name, slots, some handle⟩ => (⟨id, name, slots, some handle⟩, next)
  | ⟨id, name, slots, none⟩ =>
    let (slots, next) := slotsWithHandles next slots
    (⟨id, name, slots, some next⟩, next + 1)

def slotsWithHandles (next : Nat) : List (Option Ty) → List (Option Ty) × Nat
  | [] => ([], next)
  | slot :: slots =>
    let (slot, next) := slotWithHandles next slot
    let (slots, next) := slotsWithHandles next slots
    (slot :: slots, next)

def slotWithHandles (next : Nat) : Option Ty → Option Ty × Nat
  | none => (none, next)
  | some ty =>
    let (ty, next) := ty.withHandles next
    (some ty, next)

end

end Ty

namespace Pool

def empty (memoize tracing : Bool) : Pool :=
  { memoize, tracing, remembered := [], generation := 0, hits := 0, misses := 0,
    nextHandle := 0, kept := ∅, nextQuery := 1, events := [] }

/-- Takes a type into the pool. -/
def keep (ty : Ty) : PoolM Ty :=
  modifyGet fun pool =>
    let (ty, next) := ty.withHandles pool.nextHandle
    (ty, { pool with nextHandle := next })

def keepAll : List Ty → PoolM (List Ty)
  | [] => pure []
  | ty :: rest => do return (← keep ty) :: (← keepAll rest)

/-- Computes the parents of a type, and keeps them if the type has a handle. -/
def computeParents (catalog : Catalog) (ty : Ty) : PoolM ParentTypes := do
  let computed := catalog.parentTypes ty
  let superclass ← computed.superclass.mapM keep
  let interfaces ← keepAll computed.interfaces
  let parents : ParentTypes := ⟨superclass, interfaces⟩
  if let some handle := ty.handle then
    modify fun pool =>
      { pool with kept := pool.kept.insert handle ⟨catalog.generation, parents⟩ }
  return parents

/-- The parents of a type: those kept for it, or else computed ones. -/
def parentTypes (catalog : Catalog) (ty : Ty) : PoolM ParentTypes := do
  let pool ← get
  match ty.handle.bind fun handle => pool.kept[handle]? with
  | some kept =>
    if kept.generation = catalog.generation then return kept.parents
    else computeParents catalog ty
  | none => computeParents catalog ty

/-- Records the beginning of a query, and gives the query its number. -/
def startQuery (operation : Operation) (input : TypeId)
    (target : Option TypeId) : PoolM Nat :=
  modifyGet fun pool =>
    if pool.tracing then
      (pool.nextQuery,
        { pool with
          nextQuery := pool.nextQuery + 1
          events := .started pool.nextQuery operation input target :: pool.events })
    else (pool.nextQuery, pool)

def endQuery (query : Nat) (operation : Operation)
    (ok remembered : Bool) : PoolM Unit :=
  modify fun pool =>
    if pool.tracing then
      { pool with events := .ended query operation ok remembered :: pool.events }
    else pool

/-- The events recorded so far, in their order.  They are forgotten. -/
def takeEvents : PoolM (List QueryEvent) :=
  modifyGet fun pool => (pool.events.reverse, { pool with events := [] })

end Pool

end NominalTypes
