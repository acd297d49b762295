/-
  White space: the characters that separate words and carry nothing themselves, ASCII and
  beyond, and the removal of them from both ends of a text.
-/
import Colourway.Text.CharSet

namespace Colourway.Text

/-- Every white-space character. -/
def blankRanges : List (Nat × Nat) := [
    (0x9, 0xD), (0x20, 0x20), (0x85, 0x85), (0xA0, 0xA0), (0x1680, 0x1680), (0x2000, 0x200A),
    (0x2028, 0x2029), (0x202F, 0x202F), (0x205F, 0x205F), (0x3000, 0x3000)]

/-- The character is white space. -/
def isBlank (c : Char) : Bool := inRanges blankRanges c

/-- The text without the white space at its start. -/
def trimStart (text : List Char) : List Char := text.dropWhile isBlank

/-- The text without the white space at its end. -/
def trimEnd (text : List Char) : List Char := (text.reverse.dropWhile isBlank).reverse

/-- The text without the white space at its ends. -/
def trim (text : List Char) : List Char := trimEnd (trimStart text)

theorem trimStart_eq_nil_iff {text : List Char} :
    trimStart text = [] ↔ ∀ c ∈ text, isBlank c = true := by
  induction text with
  | nil => simp [trimStart]
  | cons c text ih =>
    unfold trimStart at ih ⊢
    rw [List.dropWhile_cons]
    split
    case isTrue h => simp [ih, h]
    case isFalse h => simp [h]

theorem trimEnd_eq_nil_iff {text : List Char} :
    trimEnd text = [] ↔ ∀ c ∈ text, isBlank c = true := by
  have h := @trimStart_eq_nil_iff text.reverse
  rw [trimEnd, List.reverse_eq_nil_iff]
  exact h.trans (by simp)

/-- Trimming leaves nothing of white space only. -/
theorem trim_eq_nil_iff {text : List Char} :
    trim text = [] ↔ ∀ c ∈ text, isBlank c = true := by
  rw [trim, trimEnd_eq_nil_iff, ← @trimStart_eq_nil_iff text]
  cases h : trimStart text with
  | nil => simp
  | cons c rest =>
    -- what is left at the start begins with a character that is not white space
    have hfirst := List.head?_dropWhile_not isBlank text
    unfold trimStart at h
    rw [h] at hfirst
    constructor
    · intro hblank
      exact absurd (hblank c List.mem_cons_self) (by simpa using hfirst)
    · intro hnil
      exact absurd hnil (List.cons_ne_nil c rest)

end Colourway.Text
