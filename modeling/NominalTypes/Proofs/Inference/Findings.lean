import NominalTypes.Inference.Matching

namespace NominalTypes

/-! What matching finds, in the order in which it finds it.

Matching stops at the first thing that speaks against a solution.  The findings
go on to the end, so that they do not depend on the solution. -/

namespace Ty

mutual

/-- The places, in order, at which a declared type and the known one have
different identities. -/
def conflicts (position : Position) : Ty → Ty → List TypeError
  | ⟨id, name, slots, handle⟩, known =>
    if id = known.id then slotsConflicts name slots.length 0 slots known.slots
    else [position.mismatch known.brief (brief ⟨id, name, slots, handle⟩)]

def slotsConflicts (owner : String) (count : Nat) :
    Nat → List (Option Ty) → List (Option Ty) → List TypeError
  | index, declared :: slots, known :: knownSlots =>
    slotConflicts ⟨owner, index, count⟩ declared known ++
      slotsConflicts owner count (index + 1) slots knownSlots
  | _, _, _ => []

def slotConflicts (position : Position) : Option Ty → Option Ty → List TypeError
  | some declared, some known => declared.conflicts position known
  | _, _ => []

end

end Ty

/-- A thing that matching finds: a conflict, or a type that stands where a
parameter of the target is declared. -/
inductive Finding where
  | conflict (error : TypeError)
  | equation (index : Nat) (known : Ty)

def Solution.add (target : Target) (solution : Solution) :
    Finding → Except TypeError Solution
  | .conflict error => .error error
  | .equation index known => solution.bind target index known

namespace Pattern

/-- What holds of an application whenever it holds of the arguments holds of
every pattern, if it holds of the rest. -/
@[induction_eliminator]
theorem induction {motive : Pattern → Prop} (var : ∀ index, motive (.var index))
    (unbound : motive .unbound) (closed : ∀ ty, motive (.closed ty))
    (apply : ∀ id args, (∀ arg ∈ args, motive arg) → motive (.apply id args))
    (pattern : Pattern) : motive pattern :=
  Pattern.rec (motive_1 := motive)
    (motive_2 := fun args => ∀ arg ∈ args, motive arg)
    var unbound closed apply (fun _ member => nomatch member)
    (fun _ _ first others arg member => by
      rcases List.mem_cons.mp member with rfl | later
      · exact first
      · exact others arg later)
    pattern

theorem describeAll_eq_map (catalog : Catalog) (params : List String)
    (args : List Pattern) :
    describeAll catalog params args = args.map (describe catalog params) := by
  induction args with
  | nil => rfl
  | cons arg rest ih => rw [describeAll, ih, List.map_cons]

mutual

/-- What matching a pattern with the known slot finds. -/
def findings (catalog : Catalog) (params : List String) (position : Position) :
    Pattern → Option Ty → List Finding
  | _, none => []
  | .unbound, some _ => []
  | .var index, some known => [.equation index known]
  | .closed declared, some known =>
      (declared.conflicts position known).map .conflict
  | .apply id args, some known =>
    if id = known.id then
      findingsAll catalog params known.name args.length 0 args known.slots
    else [.conflict
      (position.mismatch known.brief (describe catalog params (.apply id args)))]

def findingsAll (catalog : Catalog) (params : List String) (owner : String)
    (count : Nat) :
    Nat → List Pattern → List (Option Ty) → List Finding
  | index, pattern :: patterns, known :: slots =>
    pattern.findings catalog params ⟨owner, index, count⟩ known ++
      findingsAll catalog params owner count (index + 1) patterns slots
  | _, _, _ => []

end

end Pattern

/-! The findings of lists are those of their members. -/

/-- What a walk through two lists side by side collects is what it collects at
the places that both have. -/
private theorem mem_sideBySide_iff {α β γ : Type}
    (collect : Nat → List α → List β → List γ) (each : Nat → α → β → List γ)
    (leftNil : ∀ index right, collect index [] right = [])
    (rightNil : ∀ index left, collect index left [] = [])
    (cons : ∀ index first left second right,
      collect index (first :: left) (second :: right) =
      each index first second ++ collect (index + 1) left right)
    (index : Nat) (left : List α) (right : List β) (found : γ) :
    found ∈ collect index left right ↔
      ∃ place first second, left[place]? = some first ∧
        right[place]? = some second ∧
          found ∈ each (index + place) first second := by
  induction left generalizing index right with
  | nil => simp [leftNil]
  | cons first left ih =>
      cases right with
      | nil => simp [rightNil]
      | cons second right =>
          rw [cons, List.mem_append, ih]
          refine Iff.trans ?_ Nat.or_exists_add_one
          simp [Nat.add_right_comm, Nat.add_assoc]

theorem Ty.mem_slotsConflicts_iff {owner : String} {count index : Nat}
    {slots known : List (Option Ty)} {error : TypeError} :
    error ∈ slotsConflicts owner count index slots known ↔
      ∃ (place : Nat) (inner other : Ty), slots[place]? = some (some inner) ∧
        known[place]? = some (some other) ∧
        error ∈ inner.conflicts ⟨owner, index + place, count⟩ other := by
  rw [mem_sideBySide_iff (slotsConflicts owner count)
    (fun index declared known =>
      slotConflicts ⟨owner, index, count⟩ declared known)
    (fun _ _ => rfl) (fun _ slots => by cases slots <;> rfl) (fun _ _ _ _ _ => rfl)]
  constructor
  · rintro ⟨place, declared, found, left, right, member⟩
    cases declared with
    | none => cases member
    | some inner =>
        cases found with
        | none => cases member
        | some other => exact ⟨place, inner, other, left, right, member⟩
  · rintro ⟨place, inner, other, left, right, member⟩
    exact ⟨place, some inner, some other, left, right, member⟩

namespace Pattern

variable {catalog : Catalog} {params : List String}

theorem findings_none (position : Position) (pattern : Pattern) :
    pattern.findings catalog params position none = [] := by
  rw [findings]

theorem mem_findingsAll_iff {owner : String} {count index : Nat}
    {patterns : List Pattern} {known : List (Option Ty)} {finding : Finding} :
    finding ∈ findingsAll catalog params owner count index patterns known ↔
      ∃ (place : Nat) (pattern : Pattern) (other : Ty),
        patterns[place]? = some pattern ∧
        known[place]? = some (some other) ∧
        finding ∈ pattern.findings catalog params ⟨owner, index + place, count⟩
          (some other) := by
  rw [mem_sideBySide_iff (findingsAll catalog params owner count)
    (fun index pattern known =>
      pattern.findings catalog params ⟨owner, index, count⟩ known)
    (fun _ _ => rfl) (fun _ patterns => by cases patterns <;> rfl)
      (fun _ _ _ _ _ => rfl)]
  constructor
  · rintro ⟨place, pattern, found, left, right, member⟩
    cases found with
    | none =>
        rw [findings_none] at member
        cases member
    | some other => exact ⟨place, pattern, other, left, right, member⟩
  · rintro ⟨place, pattern, other, left, right, member⟩
    exact ⟨place, pattern, some other, left, right, member⟩

end Pattern

/-! Matching adds the findings one by one. -/

def firstError : List TypeError → Except TypeError Unit
  | [] => .ok ()
  | error :: _ => .error error

theorem firstError_append (errors others : List TypeError) :
    firstError (errors ++ others) = firstError errors >>= fun _ =>
      firstError others := by
  cases errors <;> rfl

namespace Ty

mutual

theorem agrees_eq_firstError :
    (declared : Ty) → (position : Position) → (known : Ty) →
    declared.agrees position known =
      firstError (declared.conflicts position known)
  | ⟨id, name, slots, handle⟩, position, known => by
      rw [agrees, conflicts]
      split
      · exact slotsAgree_eq_firstError name slots.length 0 slots known.slots
      · rfl

theorem slotsAgree_eq_firstError (owner : String) (count : Nat) :
    (index : Nat) → (slots known : List (Option Ty)) →
    slotsAgree owner count index slots known =
      firstError (slotsConflicts owner count index slots known)
  | _, [], _ => rfl
  | _, _ :: _, [] => rfl
  | index, declared :: slots, known :: knownSlots => by
      rw [slotsAgree, slotsConflicts, firstError_append,
        slotAgrees_eq_firstError ⟨owner, index, count⟩ declared known,
        slotsAgree_eq_firstError owner count (index + 1) slots knownSlots]

theorem slotAgrees_eq_firstError (position : Position) :
    (declared known : Option Ty) →
    slotAgrees position declared known =
      firstError (slotConflicts position declared known)
  | none, _ => rfl
  | some _, none => rfl
  | some declared, some known => agrees_eq_firstError declared position known

end

end Ty

private theorem foldlM_conflicts (target : Target) (solution : Solution)
    (errors : List TypeError) :
    (errors.map Finding.conflict).foldlM (Solution.add target) solution =
      firstError errors >>= fun _ => pure solution := by
  cases errors <;> rfl

namespace Pattern

variable (catalog : Catalog) (target : Target)

mutual

/-- Matching adds the findings to the solution one after the other, up to the
first that cannot be added. -/
theorem matchWith_eq_foldlM : (pattern : Pattern) → (position : Position) →
    (solution : Solution) → (known : Option Ty) →
    pattern.matchWith catalog target position solution known =
      (pattern.findings catalog target.params position known).foldlM
        (Solution.add target) solution
  | _, _, _, none => by
      rw [matchWith, findings]
      rfl
  | .unbound, _, _, some _ => rfl
  | .var _, _, _, some _ => by
      rw [matchWith, findings, List.foldlM_cons]
      exact (bind_pure _).symm
  | .closed declared, position, solution, some known => by
      rw [matchWith, findings, foldlM_conflicts, Ty.agrees_eq_firstError]
  | .apply id args, position, solution, some known => by
      rw [matchWith, findings]
      split
      · exact matchAll_eq_foldlM known.name args.length 0 solution
          args known.slots
      · rfl

theorem matchAll_eq_foldlM (owner : String) (count : Nat) : (index : Nat) →
    (solution : Solution) → (patterns : List Pattern) →
    (known : List (Option Ty)) →
    matchAll catalog target owner count index solution patterns known =
      (findingsAll catalog target.params owner count index patterns known).foldlM
        (Solution.add target) solution
  | _, _, [], _ => rfl
  | _, _, _ :: _, [] => rfl
  | index, solution, pattern :: patterns, known :: slots => by
      rw [matchAll, findingsAll, List.foldlM_append,
        matchWith_eq_foldlM pattern ⟨owner, index, count⟩ solution known]
      congr 1
      funext extended
      exact matchAll_eq_foldlM owner count (index + 1) extended patterns slots

end

end Pattern

end NominalTypes
