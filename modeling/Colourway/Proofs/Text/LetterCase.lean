/-
  Lower case within ASCII. There a character's lower case is one character, and no character
  from beyond ASCII is taken for one of these when two words are compared
  (`lower_eq_of_sameIgnoringCase`): a word spelt like an ASCII word has the same lower case.

  A text may be its own lower case (`IsLower`). Two such words are the same but for the case of
  ASCII letters only if they are the same (`sameIgnoringCase_iff_of_isLower`).
-/
import Mathlib
import Colourway.Text.LetterCase

namespace Colourway.Text

/-- The character is one of ASCII. -/
def isAscii (c : Char) : Bool := c.toNat < 0x80

/-- Only the capitals of ASCII are changed, and these move on to the small letters. -/
theorem toLower_eq_or (c : Char) :
    c.toLower = c ∨
      0x41 ≤ c.toNat ∧ c.toNat ≤ 0x5A ∧ c.toLower.toNat = c.toNat + 0x20 := by
  unfold Char.toLower
  split
  case isTrue h =>
    have hlow : 65 ≤ c.val.toNat := UInt32.le_iff_toNat_le.1 h.1
    have hhigh : c.val.toNat ≤ 90 := UInt32.le_iff_toNat_le.1 h.2
    have hshift : ('a'.val - 'A'.val).toNat = 32 := rfl
    refine .inr ⟨hlow, hhigh, ?_⟩
    simp only [Char.toNat, UInt32.toNat_add, hshift]
    omega
  case isFalse => exact .inl rfl

theorem isAscii_toLower (c : Char) : isAscii c.toLower = isAscii c := by
  rcases toLower_eq_or c with heq | ⟨-, hhigh, hsmall⟩
  · rw [heq]
  · rw [isAscii, isAscii, decide_eq_true (by omega), decide_eq_true (by omega)]

theorem toLower_of_not_isAscii {c : Char} (h : isAscii c = false) : c.toLower = c := by
  have hbeyond := of_decide_eq_false h
  rcases toLower_eq_or c with heq | ⟨-, hhigh, -⟩
  · exact heq
  · omega

theorem lowerChar_of_isAscii {c : Char} (h : isAscii c = true) : lowerChar c = [c.toLower] :=
  if_pos (of_decide_eq_true h)

theorem lower_of_isAscii {text : List Char} (h : ∀ c ∈ text, isAscii c = true) :
    lower text = text.map Char.toLower := by
  induction text with
  | nil => rfl
  | cons c text ih =>
    rw [lower, List.flatMap_cons, lowerChar_of_isAscii (h c List.mem_cons_self), ← lower,
      ih fun d hd => h d (List.mem_cons_of_mem _ hd)]
    rfl

theorem isAscii_of_map_toLower_eq {s t : List Char} (h : s.map Char.toLower = t.map Char.toLower)
    (ht : ∀ c ∈ t, isAscii c = true) : ∀ c ∈ s, isAscii c = true := by
  intro c hc
  have hmem : c.toLower ∈ t.map Char.toLower := h ▸ List.mem_map_of_mem hc
  obtain ⟨d, hd, hdc⟩ := List.mem_map.1 hmem
  rw [← isAscii_toLower, ← hdc, isAscii_toLower]
  exact ht d hd

theorem lower_eq_of_sameIgnoringCase {s t : String} (h : sameIgnoringCase s t = true)
    (ht : ∀ c ∈ t.toList, isAscii c = true) : lower s.toList = lower t.toList := by
  have hmap : s.toList.map Char.toLower = t.toList.map Char.toLower := eq_of_beq h
  rw [lower_of_isAscii (isAscii_of_map_toLower_eq hmap ht), lower_of_isAscii ht, hmap]

/-! ## Texts in lower case -/

/-- Every character is its own lower case. -/
def IsLower (text : List Char) : Prop := ∀ c ∈ text, lowerChar c = [c]

instance (text : List Char) : Decidable (IsLower text) :=
  decidable_of_iff (text.all fun c => lowerChar c == [c]) (by simp [IsLower])

theorem IsLower.lower_eq {text : List Char} (h : IsLower text) : lower text = text := by
  rw [lower, List.flatMap_congr h]
  exact List.flatMap_singleton' text

theorem IsLower.of_isPrefix {part text : List Char} (h : IsLower text) (hp : part <+: text) :
    IsLower part :=
  fun c hc => h c (hp.subset hc)

theorem toLower_of_lowerChar_eq {c : Char} (h : lowerChar c = [c]) : c.toLower = c := by
  by_cases hascii : isAscii c = true
  · rw [lowerChar_of_isAscii hascii] at h
    exact (List.cons.inj h).1
  · exact toLower_of_not_isAscii (Bool.eq_false_of_not_eq_true hascii)

theorem IsLower.map_toLower {text : List Char} (h : IsLower text) :
    text.map Char.toLower = text := by
  rw [List.map_congr_left fun c hc => toLower_of_lowerChar_eq (h c hc), List.map_id']

theorem sameIgnoringCase_iff_of_isLower {s t : String} (hs : IsLower s.toList)
    (ht : IsLower t.toList) : sameIgnoringCase s t = true ↔ s = t := by
  rw [sameIgnoringCase, hs.map_toLower, ht.map_toLower, beq_iff_eq, String.toList_inj]

end Colourway.Text
