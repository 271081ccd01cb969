import NominalTypes.Text.Bracketed
import NominalTypes.TypeError

namespace NominalTypes

open NominalTypes.Text

/-- A type: a declared identity with a slot for each of its parameters.  A slot
is bound to a type, or unbound.

`name` is what the identity was called when the type was built.  `handle`
tells apart the values that a pool keeps.  Neither of the two takes part
in comparison. -/
structure Ty where
  id : TypeId
  name : String
  slots : List (Option Ty)
  handle : Option Nat

namespace Ty

mutual

/-- Equal identities, and equal slots at every depth. -/
def same : Ty → Ty → Bool
  | ⟨id, _, slots, _⟩, other => id == other.id && sameSlots slots other.slots

def sameSlots : List (Option Ty) → List (Option Ty) → Bool
  | [], [] => true
  | slot :: slots, other :: others =>
      sameSlot slot other && sameSlots slots others
  | _, _ => false

def sameSlot : Option Ty → Option Ty → Bool
  | none, none => true
  | some ty, some other => ty.same other
  | _, _ => false

end

instance : BEq Ty := ⟨same⟩

mutual

/-- Whether no slot is unbound at any depth. -/
def isFullyBound : Ty → Bool
  | ⟨_, _, slots, _⟩ => slotsFullyBound slots

def slotsFullyBound : List (Option Ty) → Bool
  | [] => true
  | slot :: slots => slotFullyBound slot && slotsFullyBound slots

def slotFullyBound : Option Ty → Bool
  | none => false
  | some ty => ty.isFullyBound

end

mutual

/-- The name, and the slots in angle brackets if there are any; `?` is an
unbound slot. -/
def brief : Ty → String
  | ⟨_, name, slots, _⟩ => name ++ bracketed (briefSlots slots)

def briefSlots : List (Option Ty) → List String
  | [] => []
  | slot :: slots => briefSlot slot :: briefSlots slots

def briefSlot : Option Ty → String
  | none => "?"
  | some ty => ty.brief

end

mutual

/-- The type as a class file's signature writes it: slashes instead of points,
and `*` for an unbound slot. -/
def signature : Ty → String
  | ⟨_, name, slots, _⟩ =>
    "L" ++ name.map (fun c => if c == '.' then '/' else c) ++
      (if slots.isEmpty then "" else "<" ++ signatureSlots slots ++ ">") ++ ";"

def signatureSlots : List (Option Ty) → String
  | [] => ""
  | slot :: slots => signatureSlot slot ++ signatureSlots slots

def signatureSlot : Option Ty → String
  | none => "*"
  | some ty => ty.signature

end

mutual

/-- The identities from the top down and from left to right; `none` stands for
an unbound slot. -/
def preorder : Ty → List (Option TypeId)
  | ⟨id, _, slots, _⟩ => some id :: preorderSlots slots

def preorderSlots : List (Option Ty) → List (Option TypeId)
  | [] => []
  | slot :: slots => preorderSlot slot ++ preorderSlots slots

def preorderSlot : Option Ty → List (Option TypeId)
  | none => [none]
  | some ty => ty.preorder

end

/-- What holds of a type whenever it holds of the types bound in its slots holds
of every type. -/
@[induction_eliminator]
theorem induction {motive : Ty → Prop}
    (mk : ∀ id name slots handle,
      (∀ ty, some ty ∈ slots → motive ty) → motive ⟨id, name, slots, handle⟩)
    (ty : Ty) : motive ty :=
  Ty.rec (motive_1 := motive)
    (motive_2 := fun slots => ∀ ty, some ty ∈ slots → motive ty)
    (motive_3 := fun slot => ∀ ty, slot = some ty → motive ty)
    mk
    (fun _ member => nomatch member)
    (fun slot slots first others ty member => by
      rcases List.mem_cons.1 member with equality | member
      · exact first ty equality.symm
      · exact others ty member)
    (fun _ equality => nomatch equality)
    (fun bound holds ty equality => by cases equality; exact holds)
    ty

@[simp] theorem slotsFullyBound_eq_all (slots : List (Option Ty)) :
    slotsFullyBound slots = slots.all slotFullyBound := by
  induction slots with
  | nil => rfl
  | cons slot slots ih => rw [slotsFullyBound, ih, List.all_cons]

@[simp] theorem briefSlots_eq_map (slots : List (Option Ty)) :
    briefSlots slots = slots.map briefSlot := by
  induction slots with
  | nil => rfl
  | cons slot slots ih => rw [briefSlots, ih, List.map_cons]

@[simp] theorem signatureSlots_eq_join (slots : List (Option Ty)) :
    signatureSlots slots = String.join (slots.map signatureSlot) := by
  induction slots with
  | nil => rfl
  | cons slot slots ih =>
      rw [signatureSlots, ih, List.map_cons, String.join_cons]

@[simp] theorem preorderSlots_eq_flatMap (slots : List (Option Ty)) :
    preorderSlots slots = slots.flatMap preorderSlot := by
  induction slots with
  | nil => rfl
  | cons slot slots ih => rw [preorderSlots, ih, List.flatMap_cons]

/-- The slots in square brackets. -/
def showSlots (slots : List (Option Ty)) : String :=
  "[" ++ ", ".intercalate (briefSlots slots) ++ "]"

/-- The brief form beside the identity. -/
def identified (ty : Ty) : String :=
  "ResolvedType(" ++ TypeId.display ty.id ++ " " ++ ty.brief ++ ")"

/-- The type bound in a slot; nothing if the slot is unbound or
does not exist. -/
def slot? (ty : Ty) (index : Nat) : Option Ty := ty.slots[index]?.join

/-- The contents of a slot, which has to exist. -/
def slotAt (ty : Ty) (index : Nat) : Except TypeError (Option Ty) :=
  match ty.slots[index]? with
  | some slot => .ok slot
  | none => .error (.slotIndex index ty.slots.length)

end Ty

end NominalTypes
