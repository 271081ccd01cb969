import NominalTypes.Text.CodeRanges

/-! Blank characters, and texts with the blanks at their ends taken off. -/

namespace NominalTypes.Text

def blankRanges : CodeRanges :=
  [(0x9, 0xD), (0x20, 0x20), (0x85, 0x85), (0xA0, 0xA0), (0x1680, 0x1680),
   (0x2000, 0x200A), (0x2028, 0x2029), (0x202F, 0x202F), (0x205F, 0x205F),
   (0x3000, 0x3000)]

theorem blankRanges_ascending :
    CodeRanges.AscendingFrom 0 blankRanges := by decide +kernel

/-- A character with the Unicode property White_Space. -/
def isBlank (c : Char) : Bool :=
  blankRanges.covers c.toNat

theorem isBlank_iff {c : Char} :
    isBlank c = true ↔
      ∃ range ∈ blankRanges, range.1 ≤ c.toNat ∧ c.toNat ≤ range.2 :=
  CodeRanges.covers_iff blankRanges_ascending c.toNat

/-- The text without the blanks at its two ends. -/
def trim (text : String) : String :=
  String.ofList
    (((text.toList.dropWhile isBlank).reverse.dropWhile isBlank).reverse)

end NominalTypes.Text
