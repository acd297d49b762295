/-
  How far roundings lead, one after the other. A rounding leaves at least the share `kept` of a
  number, and what it makes of it has at least this share in it; so `Within n p q` says that no
  more than `n` roundings stand between two numbers. Roundings add up along a chain of
  computations (`Within.trans`), and sums and quotients of numbers that are near to others are
  near to theirs (`Within.add`, `Within.div`).

  Numbers that are zero or at least one (`NotSmall`) stay so in sums and products and when they
  are rounded. A running sum of moderate terms never gets out of hand, however many there are:
  beyond `2 ^ 126` a further term is rounded away altogether (`nearest_add_le`).
-/
import Colourway.Proofs.Double.Nearest

namespace Colourway.Double

/-- The share of a number that a rounding leaves at least. -/
def kept : ℚ := 1 - 2 ^ (-53 : ℤ)

theorem kept_nonneg : 0 ≤ kept := by
  unfold kept
  norm_num

theorem kept_le_one : kept ≤ 1 := by
  unfold kept
  norm_num

/-- Each of the numbers is at least what `n` roundings may leave of the other. -/
def Within (n : ℕ) (p q : ℚ) : Prop := kept ^ n * q ≤ p ∧ kept ^ n * p ≤ q

variable {m n : ℕ} {p q r p' q' : ℚ}

theorem within_zero (q : ℚ) : Within 0 q q := by
  unfold Within
  rw [pow_zero, one_mul]
  exact ⟨le_rfl, le_rfl⟩

theorem Within.mono (h : Within m p q) (hmn : m ≤ n) (hp : 0 ≤ p) (hq : 0 ≤ q) :
    Within n p q := by
  have hpow := pow_le_pow_of_le_one kept_nonneg kept_le_one hmn
  exact ⟨(mul_le_mul_of_nonneg_right hpow hq).trans h.1,
    (mul_le_mul_of_nonneg_right hpow hp).trans h.2⟩

theorem Within.trans (h : Within m p q) (h' : Within n q r) : Within (m + n) p r := by
  have hm := pow_nonneg kept_nonneg m
  have hn := pow_nonneg kept_nonneg n
  constructor
  · calc kept ^ (m + n) * r = kept ^ m * (kept ^ n * r) := by rw [pow_add, mul_assoc]
      _ ≤ kept ^ m * q := mul_le_mul_of_nonneg_left h'.1 hm
      _ ≤ p := h.1
  · calc kept ^ (m + n) * p = kept ^ n * (kept ^ m * p) := by rw [pow_add]; ring
      _ ≤ kept ^ n * q := mul_le_mul_of_nonneg_left h.2 hn
      _ ≤ r := h'.2

theorem Within.add (h : Within n p q) (h' : Within n p' q') : Within n (p + p') (q + q') := by
  unfold Within
  rw [mul_add, mul_add]
  exact ⟨add_le_add h.1 h'.1, add_le_add h.2 h'.2⟩

theorem Within.mul_left (h : Within n p q) (hr : 0 ≤ r) : Within n (r * p) (r * q) := by
  unfold Within
  rw [mul_left_comm, mul_left_comm _ r p]
  exact ⟨mul_le_mul_of_nonneg_left h.1 hr, mul_le_mul_of_nonneg_left h.2 hr⟩

theorem Within.div (h : Within m p q) (h' : Within n p' q') (hp : 0 ≤ p) (hq : 0 ≤ q)
    (hp' : 0 < p') (hq' : 0 < q') : Within (m + n) (p / p') (q / q') := by
  have hm := pow_nonneg kept_nonneg m
  have hn := pow_nonneg kept_nonneg n
  unfold Within
  rw [pow_add]
  constructor
  · rw [le_div_iff₀ hp', mul_assoc, div_mul_eq_mul_div, mul_div_assoc', div_le_iff₀ hq']
    calc kept ^ m * kept ^ n * (q * p') = kept ^ m * q * (kept ^ n * p') := by ring
      _ ≤ p * q' := mul_le_mul h.1 h'.2 (mul_nonneg hn hp'.le) hp
  · rw [le_div_iff₀ hq', mul_assoc, div_mul_eq_mul_div, mul_div_assoc', div_le_iff₀ hp']
    calc kept ^ m * kept ^ n * (p * q') = kept ^ m * p * (kept ^ n * q') := by ring
      _ ≤ q * p' := mul_le_mul h.2 h'.1 (mul_nonneg hn hq'.le) hq

/-- One rounding is one rounding. -/
theorem within_nearest (h : q = 0 ∨ 2 ^ (-1022 : ℤ) ≤ q) : Within 1 (nearest q) q := by
  rcases h with rfl | h
  · rw [nearest_zero]
    unfold Within
    rw [mul_zero]
    exact ⟨le_rfl, le_rfl⟩
  · have hq : 0 ≤ q := (two_zpow_pos _).le.trans h
    have hclose := abs_nearest_sub_le_mul (h.trans (le_abs_self q))
    rw [abs_of_nonneg hq, abs_le] at hclose
    have hpart : (0 : ℚ) ≤ 2 ^ (-53 : ℤ) := (two_zpow_pos _).le
    unfold Within
    rw [pow_one]
    constructor
    · unfold kept
      linarith
    · calc kept * nearest q ≤ kept * (q + 2 ^ (-53 : ℤ) * q) :=
            mul_le_mul_of_nonneg_left (by linarith) kept_nonneg
        _ = q - 2 ^ (-53 : ℤ) * 2 ^ (-53 : ℤ) * q := by unfold kept; ring
        _ ≤ q := sub_le_self _ (mul_nonneg (mul_nonneg hpart hpart) hq)

/-! ## Numbers that are not small -/

/-- Nothing, or one at least. -/
def NotSmall (p : ℚ) : Prop := p = 0 ∨ 1 ≤ p

theorem notSmall_natCast (n : ℕ) : NotSmall n := by
  rcases Nat.eq_zero_or_pos n with rfl | hpos
  · exact .inl Nat.cast_zero
  · exact .inr (Nat.one_le_cast.2 hpos)

theorem NotSmall.nonneg (hp : NotSmall p) : 0 ≤ p := by
  rcases hp with rfl | hp
  · exact le_rfl
  · exact zero_le_one.trans hp

theorem NotSmall.add (hp : NotSmall p) (hq : NotSmall q) : NotSmall (p + q) := by
  rcases hp with rfl | hp
  · rwa [zero_add]
  · exact .inr (by linarith [hq.nonneg])

theorem NotSmall.mul (hp : NotSmall p) (hq : NotSmall q) : NotSmall (p * q) := by
  rcases hp with rfl | hp
  · exact .inl (zero_mul q)
  · rcases hq with rfl | hq
    · exact .inl (mul_zero p)
    · exact .inr (one_le_mul_of_one_le_of_one_le hp hq)

theorem NotSmall.nearest (hq : NotSmall q) : NotSmall (nearest q) := by
  rcases hq with rfl | hq
  · exact .inl nearest_zero
  · exact .inr (le_nearest representable_one hq)

theorem NotSmall.within_nearest (hq : NotSmall q) : Within 1 (Double.nearest q) q := by
  have hsmall : (2 : ℚ) ^ (-1022 : ℤ) ≤ 1 := zpow_le_one_of_nonpos₀ (by norm_num) (by norm_num)
  exact Double.within_nearest (hq.imp_right hsmall.trans)

/-! ## Sums and quotients that stay moderate -/

theorem abs_nearest_lt_of_le {e : ℤ} (hq : 0 ≤ q) (h : nearest q ≤ 2 ^ e) (he : e < 1024) :
    |nearest q| < 2 ^ (1024 : ℤ) := by
  rw [abs_of_nonneg (nearest_nonneg hq)]
  exact h.trans_lt (zpow_lt_zpow_right₀ one_lt_two he)

/-- Far above, a moderate term is rounded away. -/
theorem nearest_add_le (hp : p ≤ 2 ^ (126 : ℤ)) (hq : q ≤ 2 ^ (72 : ℤ)) :
    nearest (p + q) ≤ 2 ^ (126 : ℤ) := by
  have hrep := representable_two_zpow (show (-1074 : ℤ) ≤ 126 by norm_num)
  rcases le_or_gt (p + q) (2 ^ (126 : ℤ)) with h | h
  · exact nearest_le hrep h
  · by_contra hlt
    rw [not_le] at hlt
    -- the next representable number is further off than the one that is passed
    have hbig : (2 : ℚ) ^ ((74 : ℤ) + 52) ≤ |nearest (p + q)| := hlt.le.trans (le_abs_self _)
    obtain ⟨k, hk⟩ := (representable_nearest (p + q)).exists_eq_mul (.inr hbig)
    have hclose := abs_nearest_sub_le_of_representable (p + q) hrep
    rw [abs_of_neg (sub_neg.2 h), abs_le, hk] at hclose
    rw [hk] at hlt
    norm_num at hp hq hlt hclose h
    have hk52 : (2 ^ 52 : ℤ) < k := by
      have : (2 ^ 52 : ℚ) < k := by
        norm_num
        linarith
      exact_mod_cast this
    have hnext : ((2 ^ 52 + 1 : ℤ) : ℚ) ≤ k := Int.cast_le.2 hk52
    norm_num at hnext
    linarith [hclose.2]

end Colourway.Double
