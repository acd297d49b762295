/-
  Where a number falls on a scale. On a scale of a finite width (`Scale.Laid`) the computation
  of a shade finds a pair of neighbouring stops and a ratio from 0 to 1 (`blendAt_eq`), for
  every number that lies on the scale or at most one width beyond. The steps of the scale are
  such numbers (`stepStart_mem`): adding to the lower end is rounded, but the end itself is no
  further from the true sum than the width that was added.
-/
import Colourway.Gradient.Ramp
import Colourway.Proofs.Colour.Blend
import Colourway.Proofs.Double.Distance

namespace Colourway

open Double

/-- The scale starts at the number `a` and its width is computed as `d`; nothing is added to
the numbers that are looked up. -/
structure Scale.Laid (s : Scale) (a d : ℚ) : Prop where
  min : StandsFor s.min a
  width : StandsFor (s.max - s.min) d
  width_pos : 0 < d
  offset : StandsFor s.offset 0
  size_le : s.stops.size ≤ Gradient.maxStops

namespace Scale

variable {s : Scale} {a c d : ℚ} {n : Float}

theorem stopAt_mem (s : Scale) (i : ℤ) : s.stopAt i ∈ s.stops := Array.getElem_mem _

theorem representable_two_mul (hd : Representable d) : Representable (2 * d) := by
  have h := hd.mul_two_zpow (k := 1)
  rwa [pow_one, mul_comm] at h

/-! ## Positions -/

/-- The place of a number, from 0 at the lower end of the scale to 1 at the upper one. -/
def position (a d c : ℚ) : ℚ := nearest (nearest (c - a) / d)

/-- The place of a number among the stops. -/
def scaled (s : Scale) (a d c : ℚ) : ℚ := nearest (position a d c * (s.stops.size - 1 : ℕ))

theorem diff_div_mem (hd : Representable d) (hpos : 0 < d) (hc : c ∈ Set.Icc a (a + 2 * d)) :
    nearest (c - a) / d ∈ Set.Icc 0 2 := by
  have hlow : 0 ≤ nearest (c - a) := nearest_nonneg (sub_nonneg.2 hc.1)
  have hhigh : nearest (c - a) ≤ 2 * d :=
    nearest_le (representable_two_mul hd) (by linarith [hc.2])
  exact ⟨div_nonneg hlow hpos.le, (div_le_iff₀ hpos).2 hhigh⟩

theorem position_mem (hd : Representable d) (hpos : 0 < d) (hc : c ∈ Set.Icc a (a + 2 * d)) :
    position a d c ∈ Set.Icc 0 2 ∧ |position a d c| < 2 ^ (1024 : ℤ) :=
  nearest_mem (n := 2) (by norm_num) (by norm_num) (diff_div_mem hd hpos hc)

theorem Laid.lastIndex_le (hs : s.Laid a d) : s.stops.size - 1 ≤ 1023 := by
  have hsize := hs.size_le
  unfold Gradient.maxStops at hsize
  omega

theorem scaled_mem (hs : s.Laid a d) (hc : c ∈ Set.Icc a (a + 2 * d)) :
    scaled s a d c ∈ Set.Icc 0 2046 ∧ |scaled s a d c| < 2 ^ (1024 : ℤ) := by
  have hpos := (position_mem hs.width.representable hs.width_pos hc).1
  have hlast : ((s.stops.size - 1 : ℕ) : ℚ) ≤ 1023 := by exact_mod_cast hs.lastIndex_le
  have hprod : position a d c * (s.stops.size - 1 : ℕ) ∈ Set.Icc 0 2046 :=
    ⟨mul_nonneg hpos.1 (Nat.cast_nonneg _),
      (mul_le_mul hpos.2 hlast (Nat.cast_nonneg _) (by norm_num)).trans (by norm_num)⟩
  exact nearest_mem (n := 2046) (by norm_num) (by norm_num) hprod

theorem Laid.standsFor_lastIndex (hs : s.Laid a d) :
    StandsFor (Whole.toFloat (s.stops.size - 1)) (s.stops.size - 1 : ℕ) :=
  standsFor_toFloat (hs.lastIndex_le.trans (by norm_num))

/-- The place of a number among the stops, as it is computed. -/
theorem standsFor_scaled (hs : s.Laid a d) (hn : StandsFor n c) (hc : c ∈ Set.Icc a (a + 2 * d))
    (hfits : |nearest (c - a)| < 2 ^ (1024 : ℤ)) :
    StandsFor ((n + s.offset - s.min) / (s.max - s.min) * Whole.toFloat (s.stops.size - 1))
      (scaled s a d c) := by
  have hkeep : nearest (c + 0) = c := by
    rw [add_zero, nearest_of_representable hn.representable]
  have hsum := hn.add hs.offset (hkeep.symm ▸ hn.abs_lt)
  rw [hkeep] at hsum
  have hposition := (hsum.sub hs.min hfits).div hs.width hs.width_pos.ne'
    (position_mem hs.width.representable hs.width_pos hc).2
  exact hposition.mul hs.standsFor_lastIndex (scaled_mem hs hc).2

theorem nearest_fract_mem (q : ℚ) :
    nearest (Int.fract q) ∈ Set.Icc 0 1 ∧ |nearest (Int.fract q)| < 2 ^ (1024 : ℤ) :=
  nearest_mem (n := 1) (by norm_num) (by norm_num) ⟨Int.fract_nonneg q, (Int.fract_lt_one q).le⟩

theorem holdRatio_eq {x : Float} {t : ℚ} (hx : StandsFor x t) (ht : t ∈ Set.Icc 0 1) :
    holdRatio x = x := by
  unfold holdRatio
  rw [if_neg fun h => not_lt.2 ht.1 ((hx.lt_iff standsFor_zero).1 h),
    if_neg fun h => not_lt.2 ht.2 ((standsFor_one.lt_iff hx).1 h)]

/-- A shade is blended from two neighbouring stops. -/
theorem blendAt_eq (hs : s.Laid a d) (hn : StandsFor n c) (hc : c ∈ Set.Icc a (a + 2 * d))
    (hfits : |nearest (c - a)| < 2 ^ (1024 : ℤ)) :
    ∃ ratio, StandsFor ratio (nearest (Int.fract (scaled s a d c))) ∧
      s.blendAt n = (s.stopAt ⌊scaled s a d c⌋).blend (s.stopAt (⌊scaled s a d c⌋ + 1)) ratio := by
  have hmem := (scaled_mem hs hc).1
  have hscaled := standsFor_scaled hs hn hc hfits
  have hratio := nearest_fract_mem (scaled s a d c)
  have hrest := hscaled.sub hscaled.floor hratio.2
  refine ⟨_, hrest, ?_⟩
  -- neither the index nor the one after it is held back
  have hfloor : 0 ≤ ⌊scaled s a d c⌋ ∧ ⌊scaled s a d c⌋ ≤ 2046 :=
    ⟨Int.floor_nonneg.2 hmem.1, Int.floor_le_iff.2 (by push_cast; linarith [hmem.2])⟩
  have hheld : max Whole.least (min ⌊scaled s a d c⌋ Whole.greatest) = ⌊scaled s a d c⌋ := by
    unfold Whole.least Whole.greatest
    omega
  have hnext : min (⌊scaled s a d c⌋ + 1) Whole.greatest = ⌊scaled s a d c⌋ + 1 := by
    unfold Whole.greatest
    omega
  have hindex := hscaled.floor.ofFloat_eq.trans hheld
  unfold blendAt
  dsimp only
  rw [hindex, hnext, holdRatio_eq hrest hratio.1]

/-! ## Steps -/

/-- The number that a step starts at. -/
def stepStart (s : Scale) (a d : ℚ) (i : ℕ) : ℚ :=
  nearest (a + nearest (d * nearest (i / s.steps)))

theorem Laid.steps_le (hs : s.Laid a d) : s.steps ≤ 261120 := by
  have hsize := hs.size_le
  unfold steps Gradient.maxStops at *
  omega

theorem Laid.standsFor_steps (hs : s.Laid a d) : StandsFor (Whole.toFloat s.steps) s.steps :=
  standsFor_toFloat (hs.steps_le.trans (by norm_num))

theorem steps_cast_pos (s : Scale) : (0 : ℚ) < s.steps := Nat.cast_pos.2 s.steps_pos

theorem nearest_div_steps_mem {i : ℕ} (hi : i ≤ s.steps) :
    nearest (i / s.steps : ℚ) ∈ Set.Icc 0 1 ∧ |nearest (i / s.steps : ℚ)| < 2 ^ (1024 : ℤ) := by
  have hratio : (i / s.steps : ℚ) ∈ Set.Icc 0 1 :=
    ⟨by positivity, (div_le_one s.steps_cast_pos).2 (Nat.cast_le.2 hi)⟩
  exact nearest_mem (n := 1) (by norm_num) (by norm_num) hratio

/-- A part of the width, as it is added to the lower end. -/
theorem added_mem (hs : s.Laid a d) {i : ℕ} (hi : i ≤ s.steps) :
    nearest (d * nearest (i / s.steps : ℚ)) ∈ Set.Icc 0 d :=
  nearest_mul_mem hs.width.representable hs.width_pos.le (nearest_div_steps_mem hi).1

theorem stepStart_mem (hs : s.Laid a d) {i : ℕ} (hi : i ≤ s.steps) :
    stepStart s a d i ∈ Set.Icc a (a + 2 * d) := by
  have ha := hs.min.representable
  have hadded := added_mem hs hi
  have hlow : a ≤ stepStart s a d i := le_nearest ha (by linarith [hadded.1])
  -- the lower end itself is no nearer to the sum
  have hnear := abs_nearest_sub_le_of_representable
    (a + nearest (d * nearest (i / s.steps : ℚ))) ha
  rw [sub_add_cancel_left, abs_neg, abs_of_nonneg hadded.1, abs_le] at hnear
  refine ⟨hlow, ?_⟩
  unfold stepStart
  linarith [hadded.2]

theorem stepStart_le (hs : s.Laid a d) {i : ℕ} (hi : i ≤ s.steps) :
    stepStart s a d i ≤ nearest (a + d) :=
  (partWay_mono hs.width_pos.le (nearest_div_steps_mem hi).1.2).trans_eq
    (partWay_one hs.width.representable)

/-- No step is too far away for a double, if the upper end is not. -/
theorem standsFor_stepStart (hs : s.Laid a d) {i : ℕ} (hi : i ≤ s.steps)
    (hend : |stepStart s a d i| < 2 ^ (1024 : ℤ)) :
    StandsFor (s.min + (s.max - s.min) * (Whole.toFloat i / Whole.toFloat s.steps))
      (stepStart s a d i) := by
  have hsteps := hs.steps_le
  have hmem := nearest_div_steps_mem hi
  have hratio := (standsFor_toFloat (n := i) (by omega)).div hs.standsFor_steps
    s.steps_cast_pos.ne' hmem.2
  exact (hs.min.roundsTo_partWay hs.width hratio hs.width_pos.le hmem.1).standsFor_of_abs_lt hend

end Scale

end Colourway
