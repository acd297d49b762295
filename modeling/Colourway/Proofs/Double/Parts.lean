/-
  Numbers that are taken apart. The two parts of a number are rounded, and so is their sum.

  The sum leads back to a whole number of moderate size (`nearest_add_nearest_eq`). It is off by
  a last place at most, and then it lies half-way to the next double or nearer; a whole number has
  zeros for its last digits, so it is the even one of the two. For other numbers the sum may be the
  next double, but it does not go beyond (`nearest_add_nearest_le`).

  The last place of the greater part carries both arguments: no other part of the sum is rounded
  to a place above it, and the number itself is a multiple of it.
-/
import Colourway.Proofs.Double.Nearest

namespace Colourway.Double

variable {p q r x y : ℚ} {e n : ℤ}

theorem nearest_eq_of_even (hn : Even n) (h : |q - n * 2 ^ lastPlace q| ≤ 1 / 2 * 2 ^ lastPlace q) :
    nearest q = n * 2 ^ lastPlace q := by
  have hpos := two_zpow_pos (lastPlace q)
  rw [abs_sub_comm, abs_mul_two_zpow_sub, mul_le_mul_iff_left₀ hpos, abs_sub_comm] at h
  rw [nearest, roundHalfEven_eq_of_even hn h]

/-- Half a place around a multiple of it is not left, if there is room for one more digit. -/
theorem abs_nearest_sub_le_of_lastPlace_lt (he : lastPlace q < e)
    (h : |q - n * 2 ^ e| ≤ 1 / 2 * 2 ^ e) : |nearest q - n * 2 ^ e| ≤ 1 / 2 * 2 ^ e := by
  have hplace : lastPlace q ≤ e - 1 := by omega
  have hhalf : (2 : ℚ) ^ e = 2 * 2 ^ (e - 1) := by
    rw [← zpow_one_add₀ (by norm_num), add_sub_cancel]
  rw [hhalf, abs_le] at h ⊢
  have hlow := le_nearest_of_multiple (n := 2 * n - 1) hplace (by push_cast; linarith [h.1])
  have hhigh := nearest_le_of_multiple (n := 2 * n + 1) hplace (by push_cast; linarith [h.2])
  push_cast at hlow hhigh
  constructor <;> linarith

/-! ## The greater part and the lesser one -/

/-- The lesser part is rounded to no higher place than the greater one. -/
theorem abs_nearest_sub_le_of_le (hy : 0 ≤ y) (hyx : y ≤ x) :
    |nearest y - y| ≤ 1 / 2 * 2 ^ lastPlace x := by
  rcases hy.eq_or_lt with rfl | hpos
  · rw [nearest_zero, sub_zero, abs_zero]
    positivity
  · have hplace : lastPlace y ≤ lastPlace x :=
      lastPlace_mono hpos.ne' (abs_le_abs_of_nonneg hy hyx)
    exact (abs_nearest_sub_le_half y).trans
      (mul_le_mul_of_nonneg_left (zpow_le_zpow_right₀ one_le_two hplace) (by norm_num))

theorem abs_parts_sub_le (hy : 0 ≤ y) (hyx : y ≤ x) :
    |nearest x + nearest y - (x + y)| ≤ 2 ^ lastPlace x := by
  have hleft := abs_nearest_sub_le_half x
  have hright := abs_nearest_sub_le_of_le hy hyx
  rw [add_sub_add_comm]
  exact (abs_add_le _ _).trans (by linarith)

/-- Above the parts, the next double is at least a last place of the greater part away. -/
theorem add_two_zpow_le (hx : 0 < x) (hxp : x ≤ p) (hp : Representable p) (hr : Representable r)
    (h : p < r) : p + 2 ^ lastPlace x ≤ r := by
  obtain ⟨m, hm⟩ := hp.exists_eq_mul_lastPlace hx.ne' (abs_le_abs_of_nonneg hx.le hxp)
  obtain ⟨k, hk⟩ := hr.exists_eq_mul_lastPlace hx.ne' (abs_le_abs_of_nonneg hx.le (hxp.trans h.le))
  have hpos := two_zpow_pos (lastPlace x)
  have hmk : m + 1 ≤ k := by
    rw [hm, hk] at h
    exact_mod_cast lt_of_mul_lt_mul_right h hpos.le
  calc p + 2 ^ lastPlace x = (m + 1 : ℤ) * 2 ^ lastPlace x := by rw [hm]; push_cast; ring
    _ ≤ k * 2 ^ lastPlace x := mul_le_mul_of_nonneg_right (Int.cast_le.2 hmk) hpos.le
    _ = r := hk.symm

/-- The sum of the parts of a double is not beyond the next one. -/
theorem nearest_add_nearest_le (hx : 0 ≤ x) (hy : 0 ≤ y) (hp : Representable (x + y))
    (hr : Representable r) (h : x + y < r) : nearest (nearest x + nearest y) ≤ r := by
  wlog hyx : y ≤ x generalizing x y
  · rw [add_comm]
    exact this hy hx (add_comm x y ▸ hp) (add_comm x y ▸ h) (not_le.1 hyx).le
  rcases hx.eq_or_lt with rfl | hpos
  · obtain rfl := le_antisymm hyx hy
    rw [nearest_zero, add_zero, nearest_zero]
    exact (add_zero (0 : ℚ)).symm.trans_le h.le
  · have hnext := add_two_zpow_le hpos (le_add_of_nonneg_right hy) hp hr h
    have hsum := (abs_le.1 (abs_parts_sub_le hy hyx)).2
    exact nearest_le hr (by linarith)

/-! ## Whole numbers -/

/-- A whole number is an even multiple of the last place of a number that is not great. -/
theorem exists_even_eq_mul (m : ℕ) (he : e < 0) : ∃ k : ℤ, Even k ∧ (m : ℚ) = k * 2 ^ e := by
  obtain ⟨d, rfl⟩ : ∃ d : ℕ, e = -(d + 1) := ⟨(-e - 1).toNat, by omega⟩
  refine ⟨m * 2 ^ (d + 1), (even_two.pow_of_ne_zero d.succ_ne_zero).mul_left _, ?_⟩
  rw [zpow_neg, zpow_add_one₀ (by norm_num), zpow_natCast]
  push_cast
  field_simp
  ring

theorem lastPlace_ne_of_half_le (hx : 1 / 2 ≤ x) : lastPlace x ≠ -1074 := fun hleast => by
  have hlt := abs_lt_two_zpow x
  have hsmall : (2 : ℚ) ^ (-1074 + 53 : ℤ) ≤ 2 ^ (-1 : ℤ) :=
    zpow_le_zpow_right₀ one_le_two (by norm_num)
  rw [hleast, abs_of_pos (one_half_pos.trans_le hx)] at hlt
  rw [zpow_neg_one, ← one_div] at hsmall
  exact absurd (hlt.trans_le hsmall) (not_lt.2 hx)

/-- The first place of a part that is not small is still used when it is rounded. -/
theorem two_zpow_le_nearest (hx : 0 < x) (hplace : lastPlace x ≠ -1074)
    (he : e ≤ lastPlace x) (hleast : -1074 ≤ e) : 2 ^ (e + 52) ≤ nearest x := by
  have hbig := two_zpow_le_abs hx.ne' hplace
  rw [abs_of_pos hx] at hbig
  have hpow : (2 : ℚ) ^ (e + 52) ≤ 2 ^ (lastPlace x + 52) :=
    zpow_le_zpow_right₀ one_le_two (by omega)
  exact le_nearest (representable_two_zpow (by omega)) (hpow.trans hbig)

theorem lastPlace_le_lastPlace_add (hx : 1 / 2 ≤ x) (hq : 0 ≤ q) :
    lastPlace x ≤ lastPlace (nearest x + q) := by
  have hbig := two_zpow_le_nearest (one_half_pos.trans_le hx) (lastPlace_ne_of_half_le hx) le_rfl
    (le_lastPlace x)
  have hlt := (le_abs_self _).trans_lt (abs_lt_two_zpow (nearest x + q))
  have hpow : (2 : ℚ) ^ (lastPlace x + 52) < 2 ^ (lastPlace (nearest x + q) + 53) := by linarith
  have := (zpow_lt_zpow_iff_right₀ one_lt_two).1 hpow
  omega

/-- If the sum needs no higher place than the greater part, the lesser part needs a lower one. -/
theorem lastPlace_lt_of_lastPlace_add (hx : 1 / 2 ≤ x) (hy : 0 < y)
    (h : lastPlace (nearest x + nearest y) = lastPlace x) : lastPlace y < lastPlace x := by
  by_contra hle
  rw [not_lt] at hle
  have hleast := le_lastPlace x
  have hne := lastPlace_ne_of_half_le hx
  have hbig := two_zpow_le_nearest (one_half_pos.trans_le hx) hne le_rfl hleast
  have hbig' := two_zpow_le_nearest hy (by omega) hle hleast
  have hlt := (le_abs_self _).trans_lt (abs_lt_two_zpow (nearest x + nearest y))
  have hdouble : (2 : ℚ) ^ (lastPlace x + 53) = 2 * 2 ^ (lastPlace x + 52) := by
    rw [← zpow_one_add₀ (by norm_num)]
    congr 1
    ring
  rw [h, hdouble] at hlt
  linarith

theorem lastPlace_lt_zero (h : |q| < 2 ^ (52 : ℤ)) : lastPlace q < 0 := by
  rcases eq_or_ne q 0 with rfl | hq
  · norm_num [lastPlace]
  · have hle := lastPlace_le (e := -1) (by norm_num) h hq
    omega

variable {m : ℕ}

/-- The sum of the rounded parts lies within half its last place of the whole number. -/
theorem abs_parts_sub_le_half (hx : 1 / 2 ≤ x) (hy : 0 < y) (hyx : y ≤ x) (h : x + y = m)
    (hplace : lastPlace (nearest x + nearest y) < 0) :
    |nearest x + nearest y - m| ≤ 1 / 2 * 2 ^ lastPlace (nearest x + nearest y) := by
  rcases (lastPlace_le_lastPlace_add hx (nearest_nonneg hy.le)).eq_or_lt with heq | hlt
  · -- the lesser part stays within half a place of what the greater one leaves
    have hless := lastPlace_lt_of_lastPlace_add hx hy heq.symm
    rw [← heq] at hplace ⊢
    obtain ⟨k, -, hk⟩ := exists_even_eq_mul m hplace
    obtain ⟨j, hj⟩ : ∃ j : ℤ, nearest x = j * 2 ^ lastPlace x := ⟨_, rfl⟩
    have hrest : ((k - j : ℤ) : ℚ) * 2 ^ lastPlace x = m - nearest x := by
      rw [Int.cast_sub, sub_mul, ← hk, ← hj]
    have hnear : |y - (k - j : ℤ) * 2 ^ lastPlace x| ≤ 1 / 2 * 2 ^ lastPlace x := by
      have herr : y - (m - nearest x) = nearest x - x := by
        rw [← h]
        ring
      rw [hrest, herr]
      exact abs_nearest_sub_le_half x
    have hstay := abs_nearest_sub_le_of_lastPlace_lt hless hnear
    rw [hrest] at hstay
    rwa [sub_sub_eq_add_sub, add_comm] at hstay
  · have hsum := abs_parts_sub_le hy.le hyx
    have hhalf : (2 : ℚ) ^ lastPlace x = 1 / 2 * 2 ^ (lastPlace x + 1) := by
      rw [zpow_add_one₀ (by norm_num)]
      ring
    rw [← h]
    exact (hsum.trans_eq hhalf).trans (mul_le_mul_of_nonneg_left
      (zpow_le_zpow_right₀ one_le_two hlt) (by norm_num))

/-- The sum of the parts has room for places behind the point. -/
theorem lastPlace_parts_lt_zero (hx : 0 ≤ x) (hy : 0 ≤ y) (h : x + y = m) (hm : m < 2 ^ 51) :
    lastPlace (nearest x + nearest y) < 0 := by
  have hrep : Representable (m : ℚ) := representable_natCast (by omega)
  have hleft := nearest_le hrep (show x ≤ m by linarith)
  have hright := nearest_le hrep (show y ≤ m by linarith)
  have hlt : (m : ℚ) < 2 ^ (51 : ℤ) := by exact_mod_cast hm
  have hdouble : (2 : ℚ) ^ (52 : ℤ) = 2 ^ (51 : ℤ) + 2 ^ (51 : ℤ) := by norm_num
  refine lastPlace_lt_zero ?_
  rw [abs_of_nonneg (add_nonneg (nearest_nonneg hx) (nearest_nonneg hy))]
  linarith

/-- The rounded parts of a whole number add up to it, if the sum is rounded as well. -/
theorem nearest_add_nearest_eq (hx : 0 ≤ x) (hy : 0 ≤ y) (h : x + y = m) (hm : m < 2 ^ 51) :
    nearest (nearest x + nearest y) = m := by
  wlog hyx : y ≤ x generalizing x y
  · rw [add_comm (nearest x)]
    exact this hy hx (add_comm x y ▸ h) (not_le.1 hyx).le
  rcases hy.eq_or_lt with rfl | hpos
  · have hrep : Representable (m : ℚ) := representable_natCast (by omega)
    rw [add_zero] at h
    rw [h, nearest_zero, add_zero, nearest_of_representable hrep, nearest_of_representable hrep]
  · have hone : (1 : ℚ) ≤ m := by
      have hpos : (0 : ℚ) < m := by linarith
      exact_mod_cast hpos
    have hplace := lastPlace_parts_lt_zero hx hy h hm
    have hnear := abs_parts_sub_le_half (by linarith) hpos hyx h hplace
    obtain ⟨k, hk, hmk⟩ := exists_even_eq_mul m hplace
    rw [hmk] at hnear ⊢
    exact nearest_eq_of_even hk hnear

end Colourway.Double
