/-
  The distance of two doubles, and the numbers that are a part of a distance away.

  Differences of doubles have no place below the least one there is. So small ones are exact
  (`Representable.sub_of_abs_lt`), and the others are off by a part in `2^53` at most
  (`abs_nearest_sub_sub_le`). Those of two doubles that are near each other for their size are
  exact as well (`Representable.sub_of_le_two_mul`).

  Adding the distance to the one number leads back to the other, if the distance is exact
  (`nearest_add_nearest_sub`). If not, the outcome may lie on either side of the number, but it is
  no further off than twice the rounding of the distance (`abs_nearest_add_nearest_sub_le`).
  On the way there, the outcomes never turn back (`partWay_mono`).
-/
import Colourway.Proofs.Double.Overflow

namespace Colourway.Double

variable {x w r : Float} {a d p q t u : ℚ}

/-! ## Differences -/

theorem exists_sub_eq_mul (hp : Representable p) (hq : Representable q) :
    ∃ k : ℤ, q - p = k * 2 ^ (-1074 : ℤ) := by
  obtain ⟨m, rfl⟩ := hp.exists_eq_mul (.inl rfl)
  obtain ⟨n, rfl⟩ := hq.exists_eq_mul (.inl rfl)
  exact ⟨n - m, by rw [Int.cast_sub, sub_mul]⟩

theorem two_zpow_le_sub (hp : Representable p) (hq : Representable q) (h : p < q) :
    2 ^ (-1074 : ℤ) ≤ q - p := by
  obtain ⟨k, hk⟩ := exists_sub_eq_mul hp hq
  have hpos := two_zpow_pos (-1074)
  have hk0 : (0 : ℚ) < k := pos_of_mul_pos_left (hk ▸ sub_pos.2 h) hpos.le
  have hk1 : (1 : ℚ) ≤ k := by exact_mod_cast hk0
  rw [hk]
  exact le_mul_of_one_le_left hpos.le hk1

/-- Doubles that differ have a difference: what is left is not rounded to zero. -/
theorem nearest_sub_pos (hp : Representable p) (hq : Representable q) (h : p < q) :
    0 < nearest (q - p) :=
  (two_zpow_pos (-1074)).trans_le
    (le_nearest (representable_two_zpow le_rfl) (two_zpow_le_sub hp hq h))

theorem representable_of_eq_mul {k e : ℤ} (hk : q = k * 2 ^ e) (he : -1074 ≤ e)
    (h : |q| < 2 ^ (e + 53)) : Representable q := by
  refine ⟨k, e, ?_, he, hk⟩
  rw [hk, abs_mul, abs_of_pos (two_zpow_pos e), add_comm, zpow_add₀ (by norm_num)] at h
  have hlt := lt_of_mul_lt_mul_right h (two_zpow_pos e).le
  exact_mod_cast hlt

theorem Representable.sub_of_abs_lt (hp : Representable p) (hq : Representable q)
    (h : |q - p| < 2 ^ (-1021 : ℤ)) : Representable (q - p) := by
  obtain ⟨k, hk⟩ := exists_sub_eq_mul hp hq
  exact representable_of_eq_mul hk le_rfl h

/-- The last place of the lesser number is a place of the greater one as well, and the difference
does not need more places than the lesser number has. -/
theorem Representable.sub_of_le_two_mul (hp : Representable p) (hq : Representable q)
    (h : p ≤ q) (h' : q ≤ 2 * p) : Representable (q - p) := by
  by_cases hzero : p = 0
  · have hsub : q - p = 0 := by linarith
    rw [hsub]
    exact representable_zero
  obtain ⟨m, hm⟩ := hp.exists_eq_mul_lastPlace hzero le_rfl
  obtain ⟨n, hn⟩ := hq.exists_eq_mul_lastPlace hzero (abs_le_abs_of_nonneg (by linarith) h)
  have hsub : q - p = (n - m : ℤ) * 2 ^ lastPlace p := by
    rw [Int.cast_sub, sub_mul, ← hm, ← hn]
  have hle : |q - p| ≤ |p| := by
    rw [abs_of_nonneg (sub_nonneg.2 h)]
    linarith [le_abs_self p]
  exact representable_of_eq_mul hsub (le_lastPlace p) (hle.trans_lt (abs_lt_two_zpow p))

/-- The same below zero. -/
theorem Representable.sub_of_two_mul_le (hp : Representable p) (hq : Representable q)
    (h : p ≤ q) (h' : 2 * q ≤ p) : Representable (q - p) := by
  have hneg := hq.neg.sub_of_le_two_mul hp.neg (neg_le_neg h) (by linarith)
  rwa [neg_sub_neg] at hneg

theorem abs_nearest_sub_sub_le (hp : Representable p) (hq : Representable q) :
    |nearest (q - p) - (q - p)| ≤ 2 ^ (-53 : ℤ) * |q - p| := by
  by_cases hsmall : |q - p| < 2 ^ (-1021 : ℤ)
  · rw [nearest_of_representable (hp.sub_of_abs_lt hq hsmall), sub_self, abs_zero]
    positivity
  · have hnormal : (2 : ℚ) ^ (-1022 : ℤ) ≤ 2 ^ (-1021 : ℤ) :=
      zpow_le_zpow_right₀ one_le_two (by norm_num)
    exact abs_nearest_sub_le_mul (hnormal.trans (not_lt.1 hsmall))

/-! ## There and back -/

theorem nearest_add_nearest_sub (hq : Representable q) (h : Representable (q - p)) :
    nearest (p + nearest (q - p)) = q := by
  rw [nearest_of_representable h, add_sub_cancel, nearest_of_representable hq]

theorem abs_nearest_add_nearest_sub_le (hp : Representable p) (hq : Representable q) :
    |nearest (p + nearest (q - p)) - q| ≤ 2 ^ (-52 : ℤ) * |q - p| := by
  have hdist := abs_nearest_sub_sub_le hp hq
  -- the number itself is a double, and the sum is rounded to the nearest one
  have hsum := abs_nearest_sub_le_of_representable (p + nearest (q - p)) hq
  have herr : |q - (p + nearest (q - p))| = |nearest (q - p) - (q - p)| := by
    rw [abs_sub_comm]
    congr 1
    ring
  rw [herr] at hsum
  have htwice : (2 : ℚ) ^ (-53 : ℤ) + 2 ^ (-53 : ℤ) = 2 ^ (-52 : ℤ) := by norm_num
  calc |nearest (p + nearest (q - p)) - q|
      ≤ |nearest (p + nearest (q - p)) - (p + nearest (q - p))| +
          |p + nearest (q - p) - q| := abs_sub_le _ _ _
    _ ≤ |nearest (q - p) - (q - p)| + |nearest (q - p) - (q - p)| := by
        rw [abs_sub_comm (p + nearest (q - p)) q, herr]
        exact add_le_add_left hsum _
    _ ≤ 2 ^ (-53 : ℤ) * |q - p| + 2 ^ (-53 : ℤ) * |q - p| := add_le_add hdist hdist
    _ = 2 ^ (-52 : ℤ) * |q - p| := by rw [← add_mul, htwice]

/-! ## A part of the way -/

/-- The number a part `t` of the distance `d` away from `a`, as it is computed. -/
def partWay (a d t : ℚ) : ℚ := nearest (a + nearest (d * t))

theorem partWay_zero (ha : Representable a) : partWay a d 0 = a := by
  rw [partWay, mul_zero, nearest_zero, add_zero, nearest_of_representable ha]

theorem partWay_one (hd : Representable d) : partWay a d 1 = nearest (a + d) := by
  rw [partWay, mul_one, nearest_of_representable hd]

theorem partWay_mono (hd : 0 ≤ d) (h : t ≤ u) : partWay a d t ≤ partWay a d u :=
  nearest_mono (add_le_add_right (nearest_mono (mul_le_mul_of_nonneg_left h hd)) a)

theorem nearest_mul_mem (hd : Representable d) (hd0 : 0 ≤ d) (ht : t ∈ Set.Icc 0 1) :
    nearest (d * t) ∈ Set.Icc 0 d :=
  ⟨nearest_nonneg (mul_nonneg hd0 ht.1), nearest_le hd (mul_le_of_le_one_right hd0 ht.2)⟩

theorem StandsFor.roundsTo_partWay (hx : StandsFor x a) (hw : StandsFor w d)
    (hr : StandsFor r t) (hd : 0 ≤ d) (ht : t ∈ Set.Icc 0 1) :
    RoundsTo (x + w * r) (partWay a d t) := by
  have hprod := nearest_mul_mem hw.representable hd ht
  refine hx.roundsTo_add (hw.mul hr ?_)
  rw [abs_of_nonneg hprod.1]
  exact hprod.2.trans_lt ((le_abs_self d).trans_lt hw.abs_lt)

end Colourway.Double
