import NominalTypes.Inference.Pattern

/-! Matching patterns against types that are known.

An unbound slot says nothing: it agrees with every type and with
every pattern. -/

namespace NominalTypes

/-- The place of a comparison: a slot among the `count` slots of `owner`. -/
structure Position where
  owner : String
  index : Nat
  count : Nat

/-- Two identities differ at a place. -/
def Position.mismatch (position : Position)
    (expected found : String) : TypeError :=
  .slotMismatch position.owner (position.index + 1) position.count
    expected found

namespace Ty

mutual

/-- Compares a declared type with the known one, as far down as
both are bound. -/
def agrees (position : Position) : Ty → Ty → Except TypeError Unit
  | ⟨id, name, slots, handle⟩, known =>
    if id = known.id then slotsAgree name slots.length 0 slots known.slots
    else .error (position.mismatch known.brief (brief ⟨id, name, slots, handle⟩))

def slotsAgree (owner : String) (count : Nat) :
    Nat → List (Option Ty) → List (Option Ty) → Except TypeError Unit
  | index, declared :: slots, known :: knownSlots => do
    slotAgrees ⟨owner, index, count⟩ declared known
    slotsAgree owner count (index + 1) slots knownSlots
  | _, _, _ => .ok ()

def slotAgrees (position : Position) :
    Option Ty → Option Ty → Except TypeError Unit
  | some declared, some known => declared.agrees position known
  | _, _ => .ok ()

end

end Ty

/-- The type that is inferred: its name, and the names of its parameters. -/
structure Target where
  name : String
  params : List String

/-- What has been found for the parameters of the target. -/
abbrev Solution := List (Option Ty)

/-- Adds what is known of a parameter.  What was known before stays, and has
to be the same. -/
def Solution.bind (solution : Solution) (target : Target) (index : Nat)
    (known : Ty) : Except TypeError Solution :=
  match solution[index]?.join with
  | none => .ok (solution.set index (some known))
  | some first =>
    if first == known then .ok solution
    else
      let param := target.params[index]?.getD ("#" ++ toString (index + 1))
      .error (.parameterConflict target.name param first.brief known.brief)

namespace Pattern

mutual

/-- Matches a pattern with what is known in its place, and adds what this says
of the variables. -/
def matchWith (catalog : Catalog) (target : Target) (position : Position)
    (solution : Solution) :
    Pattern → Option Ty → Except TypeError Solution
  | _, none => .ok solution
  | .unbound, some _ => .ok solution
  | .var index, some known => solution.bind target index known
  | .closed declared, some known => do
    declared.agrees position known
    pure solution
  | .apply id args, some known =>
    if id = known.id then
      matchAll catalog target known.name args.length 0 solution args known.slots
    else
      .error (position.mismatch known.brief
        (describe catalog target.params (.apply id args)))

/-- Matches patterns with slots one by one, until either list ends. -/
def matchAll (catalog : Catalog) (target : Target) (owner : String)
    (count : Nat) :
    Nat → Solution → List Pattern → List (Option Ty) → Except TypeError Solution
  | index, solution, pattern :: patterns, known :: slots => do
    let extended ← pattern.matchWith catalog target
      ⟨owner, index, count⟩ solution known
    matchAll catalog target owner count (index + 1) extended patterns slots
  | _, solution, _, _ => .ok solution

end

end Pattern

end NominalTypes
