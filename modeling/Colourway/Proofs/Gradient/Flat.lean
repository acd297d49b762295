/-
  Ramps without a domain: where the lower end is not below the upper one, the first stop alone is
  laid along a scale that ends one above its lower end. A shade on such a scale is this stop, if
  the place of the number can be computed, and else it is clear (`Scale.shadeAt_single`).

  The upper end is rounded. As long as it lies above the lower end and numbers are not shifted
  too far, all places of the table are numbers (`Scale.isFinite_placeOf`), and the ramp is flat.
  But a large lower end has no double one above it: the scale has no width, no place on it is a
  number, and the ramp is clear everywhere (`lookup_of_min_ge_max`, `exists_clear_ramp`).
-/
import Colourway.Proofs.Double.NotFinite
import Colourway.Proofs.Double.OneMore
import Colourway.Proofs.Gradient.Ramp

namespace Colourway

open Double

namespace Stop

theorem between_nan (x y : Float) : between x y Float.nan = Float.nan := by
  have hrest : 1 - Float.nan = Float.nan := rfl
  have hsum : Float.nan + Float.nan = Float.nan := rfl
  rw [between, hrest, mul_nan, mul_nan, hsum]

theorem truncate_blend_nan (s t : Stop) : (s.blend t Float.nan).truncate = .clear := by
  refine Channel.ext fun k => ?_
  have hzero : Float.nan.toUInt8 = 0 := rfl
  rw [k.ofColour_truncate, k.ofStop_blend, between_nan, hzero]
  cases k <;> rfl

end Stop

namespace Scale

variable {s : Scale} {g : Gradient} {spread : Spread} {a c : ℚ} {n : Float}

/-! ## A single stop -/

/-- The place of a number, from 0 at the lower end of the scale to 1 at the upper one, as it is
computed. -/
def placeOf (s : Scale) (n : Float) : Float := (n + s.offset - s.min) / (s.max - s.min)

theorem stopAt_eq_of_size_eq_one (h : s.stops.size = 1) (i : ℤ) : s.stopAt i = s.stopAt 0 := by
  have hindex : ∀ j k : Fin s.stops.size, s.stops[j] = s.stops[k] := fun j k => by
    have hjk : j = k := Fin.ext (by omega)
    rw [hjk]
  exact hindex _ _

theorem blendAt_single (h : s.stops.size = 1) (n : Float) :
    s.blendAt n = (s.stopAt 0).blend (s.stopAt 0)
      (holdRatio (s.placeOf n * 0 - Whole.floor (s.placeOf n * 0))) := by
  have hlast : Whole.toFloat (s.stops.size - 1) = 0 := by
    rw [h]
    rfl
  unfold blendAt
  dsimp only
  rw [hlast, s.stopAt_eq_of_size_eq_one h, s.stopAt_eq_of_size_eq_one h (min _ _)]
  rfl

/-- With a single stop, every number has the shade of this stop, if the place of the number can
be computed. -/
theorem shadeAt_single (h : s.stops.size = 1) (hstop : (s.stopAt 0).InRange) (n : Float) :
    s.shadeAt n =
      if (s.placeOf n).isFinite = true then (s.stopAt 0).truncate else .clear := by
  rw [shadeAt, blendAt_single h]
  split_ifs with hplace
  · have hzero := (standsFor_value hplace).mul standsFor_zero
      (by rw [mul_zero, nearest_zero, abs_zero]; positivity)
    rw [mul_zero, nearest_zero] at hzero
    have hfloor := hzero.floor
    rw [Int.floor_zero, Int.cast_zero] at hfloor
    have hratio := hzero.sub hfloor (by rw [sub_zero, nearest_zero, abs_zero]; positivity)
    rw [sub_zero, nearest_zero] at hratio
    rw [holdRatio_eq hratio ⟨le_rfl, zero_le_one⟩]
    exact Stop.truncate_blend_zero hstop.isFinite hstop.isFinite hratio
  · have hratio : holdRatio (Float.nan - Whole.floor Float.nan) = Float.nan := rfl
    rw [mul_zero_eq_nan (Bool.eq_false_iff.2 hplace), hratio]
    exact Stop.truncate_blend_nan _ _

/-! ## One above the lower end -/

theorem ofGradient_of_ge (h : spread.min ≥ spread.max) :
    ofGradient g spread =
      { spread with max := spread.min + 1, stops := #[g.first], size_pos := Nat.one_pos } :=
  if_pos h

theorem standsFor_add_one (hn : StandsFor n a) : StandsFor (n + 1) (nearest (a + 1)) := by
  refine hn.add standsFor_one ?_
  rcases nearest_add_one_eq_or hn.representable with h | h
  · rw [h]
    exact hn.abs_lt
  · have hsum : |a + 1| ≤ 2 ^ (56 : ℤ) := by
      have hadd := abs_add_le a 1
      norm_num at h hadd ⊢
      linarith
    exact (abs_nearest_le (representable_two_zpow (by norm_num)) hsum).trans_lt
      (zpow_lt_zpow_right₀ one_lt_two (by norm_num))

/-- The distance to the upper end, as it is computed. -/
def gap (a : ℚ) : ℚ := nearest (nearest (a + 1) - a)

theorem gap_mem (ha : Representable a) (h : nearest (a + 1) ≠ a) : gap a ∈ Set.Icc (1 / 2) 2 := by
  obtain ⟨-, hhigh⟩ := nearest_add_one_mem ha
  have hhalf : Representable (1 / 2) := by
    have hrep := representable_two_zpow (show (-1074 : ℤ) ≤ -1 by norm_num)
    norm_num at hrep ⊢
    exact hrep
  have htwo : Representable 2 := by
    exact_mod_cast representable_natCast (n := 2) (by norm_num)
  exact ⟨le_nearest hhalf (half_le_nearest_add_one_sub ha h), nearest_le htwo (by linarith)⟩

theorem standsFor_gap (hn : StandsFor n a) : StandsFor (n + 1 - n) (gap a) := by
  refine (standsFor_add_one hn).sub hn ?_
  obtain ⟨hlow, hhigh⟩ := nearest_add_one_mem hn.representable
  exact abs_nearest_lt (n := 2) (by norm_num) (by
    rw [abs_of_nonneg (by linarith)]
    push_cast
    linarith)

/-! ## Places -/

/-- The place, and what is computed on the way to it, told in a unit that is large enough. -/
theorem abs_place_le {u d o : ℚ} (hu : ∀ m : ℤ, |m| ≤ 2 ^ 53 → Representable (m * u))
    (ha : |a| ≤ u) (hc : |c| ≤ u) (ho : |o| ≤ 4 * u) (hd : 1 / 2 ≤ d) :
    |nearest (c + o)| ≤ 5 * u ∧ |nearest (nearest (c + o) - a)| ≤ 6 * u ∧
      |nearest (nearest (nearest (c + o) - a) / d)| ≤ 12 * u := by
  have hkeep : ∀ {q : ℚ} (m : ℤ), |m| ≤ 2 ^ 53 → |q| ≤ m * u → |nearest q| ≤ m * u :=
    fun m hm => abs_nearest_le (hu m hm)
  have hsum : |nearest (c + o)| ≤ 5 * u := by
    refine hkeep 5 (by norm_num) ((abs_add_le c o).trans ?_)
    push_cast
    linarith
  have hdiff : |nearest (nearest (c + o) - a)| ≤ 6 * u := by
    refine hkeep 6 (by norm_num) ((abs_sub _ _).trans ?_)
    push_cast
    linarith
  refine ⟨hsum, hdiff, hkeep 12 (by norm_num) ?_⟩
  have hpos : 0 ≤ u := (abs_nonneg a).trans ha
  rw [abs_div, abs_of_pos (by linarith : 0 < d), div_le_iff₀ (by linarith)]
  push_cast
  nlinarith only [hdiff, hd, hpos]

/-- Unless numbers are shifted further than a quarter of the range of doubles, their places can be
computed. -/
theorem isFinite_placeOf {d o : ℚ} (hmin : StandsFor s.min a) (ha : |a| ≤ 2 ^ 55)
    (hwidth : StandsFor (s.max - s.min) d) (hd : 1 / 2 ≤ d) (hoffset : StandsFor s.offset o)
    (ho : |o| ≤ 2 ^ (1022 : ℤ)) (hn : StandsFor n c) (hc : |c| ≤ 2 ^ 56) :
    (s.placeOf n).isFinite = true := by
  have hquarter : (2 : ℚ) ^ (1022 : ℤ) = 4 * 2 ^ (1020 : ℤ) := by
    rw [show (1022 : ℤ) = 2 + 1020 by norm_num, zpow_add₀ (by norm_num)]
    norm_num
  have hsmall : ∀ k : ℕ, k ≤ 1020 → (2 : ℚ) ^ k ≤ 2 ^ (1020 : ℤ) := fun k hk => by
    exact_mod_cast zpow_le_zpow_right₀ (one_le_two (α := ℚ)) (show (k : ℤ) ≤ 1020 by omega)
  obtain ⟨hsum, hdiff, hquot⟩ := abs_place_le (u := 2 ^ (1020 : ℤ)) (d := d)
    (fun m hm => representable_mul_two_zpow hm (by norm_num)) (ha.trans (hsmall 55 (by norm_num)))
    (hc.trans (hsmall 56 (by norm_num))) (ho.trans_eq hquarter) hd
  -- twelve units are still in range
  have hrange : ∀ m : ℚ, m ≤ 12 → m * 2 ^ (1020 : ℤ) < 2 ^ (1024 : ℤ) := fun m hm => by
    rw [show (1024 : ℤ) = 4 + 1020 by norm_num, zpow_add₀ (by norm_num)]
    exact mul_lt_mul_of_pos_right (by norm_num; linarith) (two_zpow_pos _)
  have hfinite := ((hn.add hoffset (hsum.trans_lt (hrange 5 (by norm_num)))).sub hmin
    (hdiff.trans_lt (hrange 6 (by norm_num)))).div hwidth (by linarith)
    (hquot.trans_lt (hrange 12 le_rfl))
  exact hfinite.isFinite

/-! ## Steps -/

/-- A single stop along numbers from `a` on, one wide before rounding. -/
structure Flat (s : Scale) (a : ℚ) : Prop where
  min : StandsFor s.min a
  max : s.max = s.min + 1
  size : s.stops.size = 1
  inRange : (s.stopAt 0).InRange

theorem flat_ofGradient (hmin : spread.min.isFinite = true) (h : spread.min ≥ spread.max)
    (hfirst : g.first.InRange) : (ofGradient g spread).Flat (value spread.min) := by
  rw [ofGradient_of_ge h]
  refine ⟨standsFor_value hmin, rfl, rfl, ?_⟩
  unfold stopAt
  split_ifs <;> exact hfirst

theorem Flat.standsFor_width (hs : s.Flat a) : StandsFor (s.max - s.min) (gap a) := by
  rw [hs.max]
  exact standsFor_gap hs.min

theorem Flat.lt_iff (hs : s.Flat a) : s.min < s.max ↔ nearest (a + 1) ≠ a := by
  rw [hs.max, hs.min.lt_iff (standsFor_add_one hs.min)]
  exact ⟨fun h => h.ne', lt_of_le_of_ne' (nearest_add_one_mem hs.min.representable).1⟩

theorem Flat.shadeAt_eq_clear (hs : s.Flat a) (h : ¬s.min < s.max) (n : Float) :
    s.shadeAt n = .clear := by
  rw [hs.lt_iff, not_not] at h
  have hwidth := hs.standsFor_width
  rw [gap, h, sub_self, nearest_zero] at hwidth
  rw [shadeAt_single hs.size hs.inRange, placeOf, hwidth.isFinite_div_zero,
    if_neg Bool.false_ne_true]

/-- The number of a step is at most two widths away from the lower end. -/
theorem Flat.standsFor_step (hs : s.Flat a) (h : nearest (a + 1) ≠ a) {i : ℕ}
    (hi : i ≤ s.steps) :
    ∃ c, |c| ≤ 2 ^ 56 ∧
      StandsFor (s.min + (s.max - s.min) * (Whole.toFloat i / Whole.toFloat s.steps)) c := by
  have hwidth := gap_mem hs.min.representable h
  have hlaid : Laid { s with offset := 0 } a (gap a) :=
    ⟨hs.min, hs.standsFor_width, by linarith [hwidth.1], standsFor_zero,
      hs.size.trans_le (by decide)⟩
  obtain ⟨hlow, hhigh⟩ := stepStart_mem hlaid hi
  have ha := abs_le.1 ((nearest_add_one_eq_or hs.min.representable).resolve_left h)
  have hbound : |stepStart { s with offset := 0 } a (gap a) i| ≤ 2 ^ 56 := by
    rw [abs_le]
    norm_num at ha ⊢
    exact ⟨by linarith only [ha.1, hlow], by linarith only [ha.2, hhigh, hwidth.2]⟩
  refine ⟨_, hbound, standsFor_stepStart hlaid hi (hbound.trans_lt ?_)⟩
  exact_mod_cast zpow_lt_zpow_right₀ (one_lt_two (α := ℚ)) (show (56 : ℤ) < 1024 by norm_num)

theorem Flat.shadeOfStep_eq (hs : s.Flat a) (h : s.min < s.max) {o : ℚ}
    (hoffset : StandsFor s.offset o) (ho : |o| ≤ 2 ^ (1022 : ℤ)) {i : ℕ} (hi : i ≤ s.steps) :
    s.shadeOfStep i = (s.stopAt 0).truncate := by
  rw [hs.lt_iff] at h
  obtain ⟨c, hc, hstep⟩ := hs.standsFor_step h hi
  have hrep := hs.min.representable
  rw [shadeOfStep, shadeAt_single hs.size hs.inRange, if_pos]
  exact isFinite_placeOf hs.min ((nearest_add_one_eq_or hrep).resolve_left h) hs.standsFor_width
    (gap_mem hrep h).1 hoffset ho hstep hc

end Scale

/-- Where the lower end is not below the upper one, the upper end is put one above it. As long
as this is a double above the lower end, the ramp is the first stop everywhere, unless numbers
are shifted so far that their place is out of reach: an entry with such a place is clear. Where
one above the lower end is rounded back to it, the ramp is clear everywhere. -/
theorem lookup_of_min_ge_max (g : Gradient) (spread : Spread)
    (hmin : spread.min.isFinite = true) (hge : spread.min ≥ spread.max)
    (hoffset : spread.offset.isFinite = true) (hbackground : spread.background = none)
    (hfirst : g.first.InRange) :
    let r := Ramp.ofGradient g spread
    r.min = spread.min ∧ StandsFor r.max (nearest (value spread.min + 1)) ∧
    (|value spread.min| < 2 ^ 53 → r.min < r.max) ∧
    (∀ i, r.entry i =
      if (r.placeOf (r.min + (r.max - r.min) *
        (Whole.toFloat i / Whole.toFloat r.steps))).isFinite = true
      then g.first.truncate else .clear) ∧
    (r.min < r.max → |value spread.offset| ≤ 2 ^ (1022 : ℤ) →
      (∀ i, r.entry i = g.first.truncate) ∧ ∀ n, r.lookup n = g.first.truncate) ∧
    (¬r.min < r.max → (∀ i, r.entry i = .clear) ∧ ∀ n, r.lookup n = .clear) := by
  intro r
  have hs := Scale.flat_ofGradient (g := g) hmin hge hfirst
  have hscale := Scale.ofGradient_of_ge (g := g) hge
  have hstop : (Scale.ofGradient g spread).stopAt 0 = g.first := by
    rw [hscale]
    unfold Scale.stopAt
    split_ifs <;> rfl
  have hentry : ∀ i, r.entry i = (Scale.ofGradient g spread).shadeOfStep i :=
    Ramp.entry_ofGradient g spread
  have hlookup : ∀ n, r.lookup n = r.entry (r.stepOf n) :=
    Ramp.lookup_of_background_eq_none ((congrArg (·.background) hscale).trans hbackground)
  have hshift : StandsFor (Scale.ofGradient g spread).offset (value spread.offset) := by
    rw [hscale]
    exact standsFor_value hoffset
  refine ⟨congrArg (·.min) hscale, ?_, fun hsmall => ?_, fun i => ?_, fun hlt ho => ?_,
    fun hnlt => ?_⟩
  · have hmax := Scale.standsFor_add_one (standsFor_value hmin)
    rwa [show spread.min + 1 = r.max from (congrArg (·.max) hscale).symm] at hmax
  · exact hs.lt_iff.2 (lt_nearest_add_one hsmall).ne'
  · rw [hentry, Scale.shadeOfStep, Scale.shadeAt_single hs.size hs.inRange, hstop]
    rfl
  · have hflat : ∀ i, r.entry i = g.first.truncate := fun i => by
      rw [hentry, hs.shadeOfStep_eq hlt hshift ho (Nat.le_of_lt_succ i.isLt), hstop]
    exact ⟨hflat, fun n => (hlookup n).trans (hflat _)⟩
  · have hclear : ∀ i, r.entry i = .clear := fun i => by
      rw [hentry, Scale.shadeOfStep, hs.shadeAt_eq_clear hnlt]
    exact ⟨hclear, fun n => (hlookup n).trans (hclear _)⟩

/-- Both ends at 5, white before black. -/
theorem lookup_of_min_ge_max_five :
    let g : Gradient := ⟨[Stop.ofColour .white, Stop.ofColour .black], by decide, by decide⟩
    let spread : Spread := { min := 5, max := 5 }
    spread.min ≥ spread.max ∧ g.first.InRange ∧
      (∀ i, (Ramp.ofGradient g spread).entry i = Colour.white) ∧
      ∀ n, (Ramp.ofGradient g spread).lookup n = Colour.white := by
  intro g spread
  have hge : spread.min ≥ spread.max := by decide +kernel
  have hfirst : g.first.InRange := Stop.inRange_ofColour _
  have hlt : (Ramp.ofGradient g spread).min < (Ramp.ofGradient g spread).max := by decide +kernel
  have hzero : value spread.offset = 0 := standsFor_zero.value_eq
  have hwhite : g.first.truncate = Colour.white := by decide +kernel
  obtain ⟨-, -, -, -, hflat, -⟩ := lookup_of_min_ge_max g spread (by decide +kernel) hge
    (by decide +kernel) rfl hfirst
  rw [hwhite, hzero, abs_zero] at hflat
  obtain ⟨hentry, hlookup⟩ := hflat hlt (two_zpow_pos _).le
  exact ⟨hge, hfirst, hentry, hlookup⟩

/-- Both ends at `2^53`, blue before red: there is no number on the scale, and the ramp is
clear. -/
theorem exists_clear_ramp :
    ∃ (g : Gradient) (spread : Spread), spread.min = spread.max ∧
      spread.min.isFinite = true ∧ spread.offset = 0 ∧ spread.background = none ∧
      g.stops = [Stop.ofColour ⟨0, 0, 255, 255⟩, Stop.ofColour ⟨255, 0, 0, 255⟩] ∧
      ¬(Ramp.ofGradient g spread).min < (Ramp.ofGradient g spread).max ∧
      (Ramp.ofGradient g spread).entry 0 = .clear ∧
      (Ramp.ofGradient g spread).lookup 5 = .clear := by
  refine ⟨⟨[Stop.ofColour ⟨0, 0, 255, 255⟩, Stop.ofColour ⟨255, 0, 0, 255⟩], by decide, by decide⟩,
    { min := 9007199254740992, max := 9007199254740992 }, rfl, by decide +kernel, rfl, rfl, rfl,
    by decide +kernel, ?_, ?_⟩
  · rw [Ramp.entry_ofGradient]
    decide +kernel
  · rw [Ramp.lookup_of_background_eq_none rfl, Ramp.entry_ofGradient]
    decide +kernel

end Colourway
