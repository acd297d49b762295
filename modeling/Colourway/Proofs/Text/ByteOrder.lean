/-
  The order of texts is the order of their bytes. Texts compare by their characters' code
  points, and UTF-8 keeps this order (`lt_iff_bytes_lt`): a character with a lower code point
  has the lower byte where the two encodings first differ, whatever follows them.
-/
import Mathlib

namespace Colourway.Text

/-- The bytes of a text in UTF-8. -/
def bytes (text : String) : List UInt8 := text.toByteArray.data.toList

theorem bytes_eq_flatMap (text : String) :
    bytes text = text.toList.flatMap String.utf8EncodeChar := by
  rw [bytes, ← String.utf8Encode_toList, List.utf8Encode, List.data_toByteArray]

theorem ofNat_lt_ofNat_iff {m n : Nat} (hm : m < 256) (hn : n < 256) :
    UInt8.ofNat m < UInt8.ofNat n ↔ m < n := by
  rw [UInt8.lt_iff_toNat_lt, UInt8.toNat_ofNat', UInt8.toNat_ofNat', Nat.mod_eq_of_lt hm,
    Nat.mod_eq_of_lt hn]

theorem ofNat_eq_ofNat_iff {m n : Nat} (hm : m < 256) (hn : n < 256) :
    UInt8.ofNat m = UInt8.ofNat n ↔ m = n := by
  rw [← UInt8.toNat_inj, UInt8.toNat_ofNat', UInt8.toNat_ofNat', Nat.mod_eq_of_lt hm,
    Nat.mod_eq_of_lt hn]

/-- Of two numbers in base 64, the lower one has the lower digit where they first differ. -/
theorem digits_lt {m n : Nat} (h : m < n) (hn : n < 8 * 262144) :
    m / 262144 % 8 < n / 262144 % 8 ∨ m / 262144 % 8 = n / 262144 % 8 ∧
      (m / 4096 % 64 < n / 4096 % 64 ∨ m / 4096 % 64 = n / 4096 % 64 ∧
        (m / 64 % 64 < n / 64 % 64 ∨ m / 64 % 64 = n / 64 % 64 ∧ m % 64 < n % 64)) := by
  have hstep : ∀ m n : Nat, m < n → m / 64 < n / 64 ∨ m / 64 = n / 64 ∧ m % 64 < n % 64 := by
    intro m n hmn
    omega
  have hquotient : ∀ n : Nat, n / 64 / 64 = n / 4096 ∧ n / 4096 / 64 = n / 262144 := fun n =>
    ⟨Nat.div_div_eq_div_mul n 64 64, Nat.div_div_eq_div_mul n 4096 64⟩
  have hm := hquotient m
  have hn' := hquotient n
  have htop : n / 262144 < 8 := by omega
  rcases hstep m n h with h | ⟨heq, h⟩
  · have h2 := hstep _ _ h
    rw [hm.1, hn'.1] at h2
    rcases h2 with h2 | ⟨heq2, h2⟩
    · have h3 := hstep _ _ h2
      rw [hm.2, hn'.2] at h3
      rcases h3 with h3 | ⟨heq3, h3⟩
      · left
        rw [Nat.mod_eq_of_lt htop, Nat.mod_eq_of_lt (by omega)]
        exact h3
      · exact .inr ⟨by rw [heq3], .inl h3⟩
    · exact .inr ⟨by rw [← hm.2, ← hn'.2, heq2], .inr ⟨by rw [heq2], .inl h2⟩⟩
  · exact .inr ⟨by rw [← hm.2, ← hn'.2, ← hm.1, ← hn'.1, heq],
      .inr ⟨by rw [← hm.1, ← hn'.1, heq], .inr ⟨by rw [heq], h⟩⟩⟩

/-- The encoding of the lower of two characters comes first, whatever follows. -/
theorem utf8EncodeChar_append_lt {c d : Char} (h : c < d) (u v : List UInt8) :
    String.utf8EncodeChar c ++ u < String.utf8EncodeChar d ++ v := by
  have hcd : c.val.toNat < d.val.toNat := h
  have hd : d.val.toNat < 0x110000 := by
    have hvalid := d.valid
    simp only [UInt32.isValidChar, Nat.isValidChar] at hvalid
    omega
  have hdigits := digits_lt hcd (by omega)
  unfold String.utf8EncodeChar
  dsimp only
  -- one case for each pair of widths; the higher character is never the narrower one
  split_ifs
  all_goals
    simp (disch := omega) only [List.cons_append, List.nil_append, List.cons_lt_cons_iff,
      ofNat_lt_ofNat_iff, ofNat_eq_ofNat_iff]
    omega

theorem flatMap_utf8EncodeChar_lt {s t : List Char} (h : s < t) :
    s.flatMap String.utf8EncodeChar < t.flatMap String.utf8EncodeChar := by
  induction h with
  | @nil c t =>
    obtain ⟨b, rest, hb⟩ := List.exists_cons_of_ne_nil (String.utf8EncodeChar_ne_nil (c := c))
    rw [List.flatMap_cons, hb]
    exact List.nil_lt_cons b _
  | rel hcd =>
    rw [List.flatMap_cons, List.flatMap_cons]
    exact utf8EncodeChar_append_lt hcd _ _
  | cons _ ih =>
    rw [List.flatMap_cons, List.flatMap_cons]
    exact List.append_left_lt ih

/-- Texts are ordered by their bytes. -/
theorem lt_iff_bytes_lt {s t : String} : s < t ↔ bytes s < bytes t := by
  rw [bytes_eq_flatMap, bytes_eq_flatMap, String.lt_iff_toList_lt]
  refine ⟨flatMap_utf8EncodeChar_lt, fun h => ?_⟩
  by_contra hnot
  rcases eq_or_lt_of_not_gt hnot with heq | hlt
  · rw [heq] at h
    exact List.lt_irrefl _ h
  · exact List.lt_asymm h (flatMap_utf8EncodeChar_lt hlt)

end Colourway.Text
