/-! Sets of characters, written as ranges of code points. -/

namespace NominalTypes.Text

/-- Ranges of code points in ascending order, each given by its first and
its last member. -/
abbrev CodeRanges := List (Nat × Nat)

namespace CodeRanges

/-- Whether a range holds the code point.  The search stops at the first range
that lies above it. -/
def covers : CodeRanges → Nat → Bool
  | [], _ => false
  | (first, last) :: rest, code =>
    if code < first then false else if code ≤ last then true
    else covers rest code

/-- Every range is in order.  The first one does not begin before `start`, and
each of the others begins after the one before it has ended. -/
def AscendingFrom : Nat → CodeRanges → Prop
  | _, [] => True
  | start, (first, last) :: rest =>
    start ≤ first ∧ first ≤ last ∧ AscendingFrom (last + 1) rest

instance decidableAscendingFrom :
    (start : Nat) → (ranges : CodeRanges) →
      Decidable (AscendingFrom start ranges)
  | _, [] => inferInstanceAs (Decidable True)
  | start, (first, last) :: rest =>
    have := decidableAscendingFrom (last + 1) rest
    inferInstanceAs (Decidable
      (start ≤ first ∧ first ≤ last ∧ AscendingFrom (last + 1) rest))

@[simp] theorem covers_nil (code : Nat) : covers [] code = false := rfl

theorem covers_cons (first last : Nat) (rest : CodeRanges) (code : Nat) :
    covers ((first, last) :: rest) code =
      if code < first then false else if code ≤ last then true
        else covers rest code := rfl

theorem AscendingFrom.le_first {start : Nat} {ranges : CodeRanges}
    (ascending : AscendingFrom start ranges) {range : Nat × Nat}
    (member : range ∈ ranges) : start ≤ range.1 := by
  induction ranges generalizing start with
  | nil => cases member
  | cons head rest ih =>
      obtain ⟨begins, ordered, above⟩ := ascending
      rcases List.mem_cons.mp member with rfl | later
      · exact begins
      · have := ih above later
        omega

/-- In ascending ranges nothing is lost by stopping early. -/
theorem covers_iff {start : Nat} {ranges : CodeRanges}
    (ascending : AscendingFrom start ranges) (code : Nat) :
    ranges.covers code = true ↔
      ∃ range ∈ ranges, range.1 ≤ code ∧ code ≤ range.2 := by
  induction ranges generalizing start with
  | nil => simp
  | cons head rest ih =>
      obtain ⟨first, last⟩ := head
      obtain ⟨_, ordered, above⟩ := ascending
      have later : ∀ range ∈ rest, last < range.1 :=
        fun _ member => above.le_first member
      rw [covers_cons]
      split
      · rename_i below
        rw [iff_false_left Bool.false_ne_true]
        rintro ⟨range, member, reached, _⟩
        rcases List.mem_cons.mp member with rfl | member
        · exact absurd below (Nat.not_lt.mpr reached)
        · have := later range member
          omega
      · split
        · rename_i reached inside
          exact iff_of_true rfl
            ⟨_, List.mem_cons_self, Nat.not_lt.mp reached, inside⟩
        · rename_i beyond
          rw [ih above]
          constructor
          · rintro ⟨range, member, inside⟩
            exact ⟨range, List.mem_cons_of_mem _ member, inside⟩
          · rintro ⟨range, member, inside⟩
            rcases List.mem_cons.mp member with rfl | member
            · exact absurd inside.2 beyond
            · exact ⟨range, member, inside⟩

end CodeRanges

end NominalTypes.Text
