/-
  Adding one to a double. The sum is rounded, and may be rounded back to the double itself; this
  happens to all doubles that are large (`nearest_add_one_eq_or`) and to none below `2^53`
  (`lt_nearest_add_one`). If it does not happen, the sum is a half further at least and two at
  most (`half_le_nearest_add_one_sub`, `nearest_add_one_mem`).
-/
import Colourway.Proofs.Double.Nearest

namespace Colourway.Double

variable {a : ℚ}

theorem nearest_add_one_mem (ha : Representable a) : nearest (a + 1) ∈ Set.Icc a (a + 2) := by
  have hclose := abs_nearest_sub_le_of_representable (a + 1) ha
  rw [sub_add_cancel_left, abs_neg, abs_one, abs_le] at hclose
  exact ⟨le_nearest ha (by linarith), by linarith [hclose.2]⟩

/-- Beyond `2^55` neighbours are four apart at least. -/
theorem nearest_add_one_eq_or (ha : Representable a) : nearest (a + 1) = a ∨ |a| ≤ 2 ^ 55 := by
  by_cases hsmall : |a| ≤ 2 ^ 55
  · exact .inr hsmall
  · refine .inl ?_
    obtain ⟨hlow, hhigh⟩ := nearest_add_one_mem ha
    have hlarge : (2 : ℚ) ^ ((2 : ℤ) + 52) ≤ |a| := by
      norm_num at hsmall ⊢
      linarith
    have hlarge' : (2 : ℚ) ^ ((2 : ℤ) + 52) ≤ |nearest (a + 1)| := by
      have hdist := abs_sub_abs_le_abs_sub a (nearest (a + 1))
      rw [abs_sub_comm, abs_of_nonneg (sub_nonneg.2 hlow)] at hdist
      norm_num at hsmall ⊢
      linarith
    obtain ⟨m, hm⟩ := ha.exists_eq_mul (.inr hlarge)
    obtain ⟨n, hn⟩ := (representable_nearest (a + 1)).exists_eq_mul (.inr hlarge')
    norm_num at hm hn
    have hmn : m ≤ n := by
      have h : (m : ℚ) ≤ n := by linarith
      exact_mod_cast h
    have hnm : n < m + 1 := by
      have h : (n : ℚ) < m + 1 := by linarith
      exact_mod_cast h
    rw [hn, hm, show n = m by omega]

theorem lt_nearest_add_one (h : |a| < 2 ^ 53) : a < nearest (a + 1) := by
  -- a whole number is nearer to the sum
  have hwhole : Representable ((⌊a⌋ + 1 : ℤ) : ℚ) := by
    obtain ⟨hlow, hhigh⟩ := abs_lt.1 h
    have hfloor : -2 ^ 53 ≤ ⌊a⌋ := Int.le_floor.2 (by push_cast; exact hlow.le)
    have hfloor' : ⌊a⌋ < 2 ^ 53 := Int.floor_lt.2 (by push_cast; exact hhigh)
    exact representable_intCast (abs_le.2 ⟨by omega, by omega⟩)
  have hclose := abs_nearest_sub_le_of_representable (a + 1) hwhole
  have hdist : ((⌊a⌋ + 1 : ℤ) : ℚ) - (a + 1) = -Int.fract a := by
    rw [Int.fract]
    push_cast
    ring
  rw [hdist, abs_neg, abs_of_nonneg (Int.fract_nonneg a), abs_le] at hclose
  linarith [hclose.1, Int.fract_lt_one a]

theorem half_le_nearest_add_one_sub (ha : Representable a) (h : nearest (a + 1) ≠ a) :
    1 / 2 ≤ nearest (a + 1) - a := by
  by_cases hsmall : |a + 1| < 2 ^ (53 : ℤ)
  · have hclose := (abs_le.1 (abs_nearest_sub_le (by norm_num) hsmall)).1
    norm_num at hclose
    linarith
  · -- both are whole numbers there
    rw [not_lt] at hsmall
    have hlarge : (2 : ℚ) ^ ((0 : ℤ) + 52) ≤ |a| := by
      have habs := abs_add_le a 1
      norm_num at hsmall habs ⊢
      linarith
    have hlarge' : (2 : ℚ) ^ ((0 : ℤ) + 52) ≤ |nearest (a + 1)| := by
      have hrep := representable_two_zpow (show (-1074 : ℤ) ≤ 53 by norm_num)
      have hle : (2 : ℚ) ^ (53 : ℤ) ≤ |nearest (a + 1)| := by
        rcases le_abs.1 hsmall with hpos | hneg
        · exact (le_nearest hrep hpos).trans (le_abs_self _)
        · have hle := le_nearest hrep hneg
          rw [nearest_neg] at hle
          exact hle.trans (neg_le_abs _)
      exact (zpow_le_zpow_right₀ one_le_two (by norm_num)).trans hle
    obtain ⟨m, hm⟩ := ha.exists_eq_mul (.inr hlarge)
    obtain ⟨n, hn⟩ := (representable_nearest (a + 1)).exists_eq_mul (.inr hlarge')
    rw [zpow_zero, mul_one] at hm hn
    have hlow := (nearest_add_one_mem ha).1
    rw [hn, hm] at hlow h ⊢
    have hmn : m + 1 ≤ n := lt_of_le_of_ne (Int.cast_le.1 hlow) fun he => h (by rw [he])
    have hcast : (m : ℚ) + 1 ≤ n := by exact_mod_cast hmn
    linarith

end Colourway.Double
