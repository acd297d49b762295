/-
  Numbers outside the domain of a ramp that is not looped. A lookup holds the number to the
  domain before anything is added to it: the table has been worked out for the domain alone, so
  the shade is the one that is worked out for the end (`lookup_outside`), or for the step before
  it, if rounding puts the number there (`Ramp.HeldTo`). The shade worked out for the number itself
  is held to the stops only after the offset is added. They differ where the offset brings one of
  the two numbers into the domain (`exists_lookup_ne_shadeAt`).

  Where the offset leaves both the number and the end on the same side of the domain, both shades
  are blended from one stop with itself (`Scale.near_shadeAt`). If this stop is a colour, they are
  that colour. A channel between two whole numbers is settled just the same, unless it is the last
  double below the greater one: rounding may lead one of the two shades there, and not the other.
-/
import Colourway.Proofs.Colour.SelfBlend
import Colourway.Proofs.Gradient.Ends
import Colourway.Proofs.Gradient.Flat
import Colourway.Proofs.Gradient.Landing

namespace Colourway

open Double

namespace Scale

variable {s : Scale} {a b c q : ℚ} {m n x y : Float} {i j : ℤ}

/-- The scale runs from the number `a` up to the number `b`, it is not looped, and its width and
what is added to numbers are finite. -/
structure Bounded (s : Scale) (a b : ℚ) : Prop where
  min : StandsFor s.min a
  max : StandsFor s.max b
  lt : a < b
  width : (s.max - s.min).isFinite = true
  offset : s.offset.isFinite = true
  looped : s.looped = false
  size_le : s.stops.size ≤ Gradient.maxStops

theorem Bounded.standsFor_width (hs : s.Bounded a b) :
    StandsFor (s.max - s.min) (nearest (b - a)) :=
  hs.max.sub_of_isFinite hs.min hs.width

theorem Bounded.width_pos (hs : s.Bounded a b) : 0 < nearest (b - a) :=
  nearest_sub_pos hs.min.representable hs.max.representable hs.lt

/-- The scale with the same steps where nothing is added to numbers. -/
def unshifted (s : Scale) : Scale := { s with offset := 0 }

theorem Bounded.laid (hs : s.Bounded a b) : s.unshifted.Laid a (nearest (b - a)) :=
  ⟨hs.min, hs.standsFor_width, hs.width_pos, standsFor_zero, hs.size_le⟩

theorem Bounded.standsFor_steps (hs : s.Bounded a b) :
    StandsFor (Whole.toFloat s.steps) s.steps :=
  hs.laid.standsFor_steps

theorem Bounded.standsFor_stepSize (hs : s.Bounded a b) :
    StandsFor s.stepSize (nearest (nearest (b - a) / s.steps)) :=
  Ramp.standsFor_stepSize (s := s.unshifted) hs.laid

/-! ## Ranks -/

/-- The place of a number among the stops, counted from the first, as it is computed. -/
def rankOf (s : Scale) (n : Float) : Float := s.placeOf n * Whole.toFloat (s.stops.size - 1)

/-- What is blended at a place among the stops. -/
def blendOfRank (s : Scale) (x : Float) : Stop :=
  let i := Whole.ofFloat (Whole.floor x)
  (s.stopAt i).blend (s.stopAt (min (i + 1) Whole.greatest)) (holdRatio (x - Whole.floor x))

theorem shadeAt_eq (s : Scale) (n : Float) :
    s.shadeAt n = (s.blendOfRank (s.rankOf n)).truncate := rfl

/-- A rank is zero or less for numbers that are shifted below the scale, and that of the last
stop or more for those that are shifted above it. Neither lies behind a single stop. -/
theorem exists_standsFor_rankOf (hs : s.Bounded a b) (hrank : (s.rankOf n).isFinite = true) :
    ∃ q, StandsFor (s.rankOf n) q ∧ (n + s.offset ≤ s.min → q ≤ 0) ∧
      (s.max ≤ n + s.offset → (s.stops.size - 1 : ℕ) ≤ q ∧ (q ≤ 0 ∨ 1 ≤ q)) := by
  have hplace := isFinite_of_mul hrank
  have hdiff := isFinite_of_div hplace
  have hwidth := hs.width_pos
  have hlast : StandsFor (Whole.toFloat (s.stops.size - 1)) (s.stops.size - 1 : ℕ) :=
    hs.laid.standsFor_lastIndex
  have hnonneg : (0 : ℚ) ≤ (s.stops.size - 1 : ℕ) := Nat.cast_nonneg _
  -- what is computed on the way is finite, because the rank is
  have hsum := standsFor_value (isFinite_of_sub hdiff)
  have hnumber := hsum.sub_of_isFinite hs.min hdiff
  have hquotient := (hnumber.roundsTo_div hs.standsFor_width hwidth.ne').standsFor hplace
  refine ⟨_, (hquotient.roundsTo_mul hlast).standsFor hrank, fun hbelow => ?_, fun habove => ?_⟩
  · have hle := (hsum.le_iff hs.min).1 hbelow
    have hnum := nearest_le representable_zero (sub_nonpos.2 hle)
    have hquot := nearest_le representable_zero (div_nonpos_of_nonpos_of_nonneg hnum hwidth.le)
    exact nearest_le representable_zero (mul_nonpos_of_nonpos_of_nonneg hquot hnonneg)
  · have hge := (hs.max.le_iff hsum).1 habove
    have hnum := nearest_mono (sub_le_sub_right hge a)
    have hquot := le_nearest representable_one ((one_le_div₀ hwidth).2 hnum)
    have hle := le_nearest hlast.representable (le_mul_of_one_le_left hnonneg hquot)
    refine ⟨hle, ?_⟩
    rcases Nat.eq_zero_or_pos (s.stops.size - 1) with hzero | hpos
    · rw [hzero, Nat.cast_zero, mul_zero, nearest_zero]
      exact .inl le_rfl
    · exact .inr ((Nat.one_le_cast.2 hpos).trans hle)

/-! ## Held stops -/

theorem stopAt_congr (hlooped : s.looped = false)
    (h : max 0 (min i (s.stops.size - 1)) = max 0 (min j (s.stops.size - 1))) :
    s.stopAt i = s.stopAt j := by
  have hhold : Whole.hold i s.size_pos = Whole.hold j s.size_pos :=
    Fin.ext (congrArg Int.toNat h)
  unfold stopAt
  simp only [hlooped, Bool.false_eq_true, if_false, hhold]

theorem stopAt_of_nonpos (hlooped : s.looped = false) (hi : i ≤ 0) : s.stopAt i = s.stopAt 0 :=
  stopAt_congr hlooped (by omega)

theorem stopAt_of_le (hlooped : s.looped = false) (hi : (s.stops.size - 1 : ℕ) ≤ i) :
    s.stopAt i = s.stopAt (s.stops.size - 1 : ℕ) :=
  stopAt_congr hlooped (by omega)

theorem exists_blendOfRank_eq (s : Scale) (hx : StandsFor x q) :
    ∃ ratio, StandsFor ratio (nearest (Int.fract q)) ∧
      ∀ i, i = max Whole.least (min ⌊q⌋ Whole.greatest) → s.blendOfRank x =
        (s.stopAt i).blend (s.stopAt (min (i + 1) Whole.greatest)) ratio := by
  have hmem := nearest_fract_mem q
  have hratio := hx.sub hx.floor hmem.2
  refine ⟨_, hratio, fun i hi => ?_⟩
  rw [hi, ← hx.floor.ofFloat_eq, blendOfRank, holdRatio_eq hratio hmem.1]

theorem near_blendOfRank_of_nonpos (hs : s.Bounded a b) (hstops : ∀ t ∈ s.stops, t.IsFinite)
    (hx : StandsFor x q) (hq : q ≤ 0) : (s.stopAt 0).Near (s.blendOfRank x).truncate := by
  obtain ⟨ratio, hratio, hblend⟩ := s.exists_blendOfRank_eq hx
  have hfinite := fun i => hstops _ (s.stopAt_mem i)
  rcases hq.lt_or_eq with hneg | rfl
  · -- both stops are held to the first one
    have hfloor : ⌊q⌋ < 0 := Int.floor_lt.2 (by exact_mod_cast hneg)
    obtain ⟨i, hi⟩ : ∃ i, i = max Whole.least (min ⌊q⌋ Whole.greatest) := ⟨_, rfl⟩
    have hbelow : i < 0 := by
      unfold Whole.least at hi
      omega
    have hnext : min (i + 1) Whole.greatest ≤ 0 := by omega
    rw [hblend i hi, stopAt_of_nonpos hs.looped hbelow.le, stopAt_of_nonpos hs.looped hnext]
    exact Stop.near_blend_self (hfinite 0) hratio (nearest_fract_mem q).1
      (representable_one_sub hx.representable (.inl hq))
  · rw [Int.fract_zero, nearest_zero] at hratio
    rw [hblend 0 (by rw [Int.floor_zero]; decide),
      Stop.truncate_blend_zero (hfinite _) (hfinite _) hratio]
    exact Stop.near_truncate (hfinite 0)

theorem near_blendOfRank_of_le (hs : s.Bounded a b) (hstops : ∀ t ∈ s.stops, t.IsFinite)
    (hx : StandsFor x q) (hq : (s.stops.size - 1 : ℕ) ≤ q) (hq' : q ≤ 0 ∨ 1 ≤ q) :
    (s.stopAt (s.stops.size - 1 : ℕ)).Near (s.blendOfRank x).truncate := by
  obtain ⟨ratio, hratio, hblend⟩ := s.exists_blendOfRank_eq hx
  have hlast : s.stops.size - 1 ≤ 1023 := hs.laid.lastIndex_le
  have hfloor : (s.stops.size - 1 : ℕ) ≤ ⌊q⌋ := Int.le_floor.2 (by exact_mod_cast hq)
  obtain ⟨i, hi⟩ : ∃ i, i = max Whole.least (min ⌊q⌋ Whole.greatest) := ⟨_, rfl⟩
  have habove : (s.stops.size - 1 : ℕ) ≤ i ∧
      (s.stops.size - 1 : ℕ) ≤ min (i + 1) Whole.greatest := by
    unfold Whole.least Whole.greatest at *
    omega
  rw [hblend i hi, stopAt_of_le hs.looped habove.1, stopAt_of_le hs.looped habove.2]
  exact Stop.near_blend_self (hstops _ (s.stopAt_mem _)) hratio (nearest_fract_mem q).1
    (representable_one_sub hx.representable hq')

/-- Numbers that are shifted below or above the scale have nearly the shade of its end. -/
theorem near_shadeAt (hs : s.Bounded a b) (hstops : ∀ t ∈ s.stops, t.IsFinite)
    (hrank : (s.rankOf n).isFinite = true) :
    (n + s.offset ≤ s.min → (s.stopAt 0).Near (s.shadeAt n)) ∧
      (s.max ≤ n + s.offset → (s.stopAt (s.stops.size - 1 : ℕ)).Near (s.shadeAt n)) := by
  obtain ⟨q, hq, hbelow, habove⟩ := exists_standsFor_rankOf hs hrank
  rw [shadeAt_eq]
  exact ⟨fun h => near_blendOfRank_of_nonpos hs hstops hq (hbelow h),
    fun h => near_blendOfRank_of_le hs hstops hq (habove h).1 (habove h).2⟩

/-! ## Two doubles of one number -/

theorem blendOfRank_congr (s : Scale) (hx : StandsFor x q) (hy : StandsFor y q) :
    s.blendOfRank x = s.blendOfRank y := by
  have hzeros : s.blendOfRank 0 = s.blendOfRank (-0) := by
    have hfloor : Whole.floor 0 = 0 ∧ Whole.floor (-0) = -0 := by decide +kernel
    have hindex : Whole.ofFloat 0 = 0 ∧ Whole.ofFloat (-0) = 0 := by decide +kernel
    have hrest : (0 : Float) - 0 = 0 ∧ (-0 : Float) - -0 = 0 := ⟨rfl, rfl⟩
    unfold blendOfRank
    rw [hfloor.1, hfloor.2, hindex.1, hindex.2, hrest.1, hrest.2]
  obtain ⟨-, -, rfl | ⟨rfl, rfl⟩ | ⟨rfl, rfl⟩⟩ :=
    Float.beq_iff_ne_nan_and_eq.1 ((hx.beq_iff hy).2 rfl)
  · rfl
  · exact hzeros
  · exact hzeros.symm

/-- A shade depends on the number alone. The sign of a zero is lost as soon as it is added to
anything else, and if it is not, it does not matter in the end. -/
theorem shadeAt_congr (hs : s.Bounded a b) (hm : StandsFor m c) (hn : StandsFor n c) :
    s.shadeAt m = s.shadeAt n := by
  have hequal : m + s.offset - s.min = n + s.offset - s.min → s.shadeAt m = s.shadeAt n := by
    intro h
    rw [shadeAt_eq, shadeAt_eq, rankOf, rankOf, placeOf, placeOf, h]
  rcases hm.eq_or hn with h | rfl
  · rw [h]
  have hoffset := standsFor_value hs.offset
  have hsum := hm.add_of_zero hoffset
  have hsum' := hn.add_of_zero hoffset
  rcases hsum.eq_or hsum' with h | ho
  · exact hequal (congrArg (· - s.min) h)
  rw [ho] at hsum hsum'
  have hdiff := hsum.sub_of_zero hs.min
  have hdiff' := hsum'.sub_of_zero hs.min
  rcases hdiff.eq_or hdiff' with h | ha
  · exact hequal h
  rw [ha] at hdiff hdiff'
  have hrank : ∀ {x}, StandsFor x 0 → StandsFor
      (x / (s.max - s.min) * Whole.toFloat (s.stops.size - 1)) 0 := fun hx =>
    (hx.div_of_zero hs.standsFor_width hs.width_pos.ne').mul_of_zero hs.laid.standsFor_lastIndex
  exact congrArg Stop.truncate (s.blendOfRank_congr (hrank hdiff) (hrank hdiff'))

theorem shadeAt_congr_of_beq (hs : s.Bounded a b) (h : (m == n) = true) :
    s.shadeAt m = s.shadeAt n := by
  have hneg : StandsFor (-0) 0 := neg_zero (G := ℚ) ▸ standsFor_zero.neg
  obtain ⟨-, -, rfl | ⟨rfl, rfl⟩ | ⟨rfl, rfl⟩⟩ := Float.beq_iff_ne_nan_and_eq.1 h
  · rfl
  · exact shadeAt_congr hs standsFor_zero hneg
  · exact shadeAt_congr hs hneg standsFor_zero

/-! ## The ends of the table -/

theorem shadeOfStep_zero_eq (hs : s.Bounded a b) : s.shadeOfStep 0 = s.shadeAt s.min := by
  have hstart : s.stepStart a (nearest (b - a)) 0 = a := Ramp.stepStart_zero hs.min.representable
  have hfirst := standsFor_stepStart (s := s.unshifted) hs.laid (Nat.zero_le _)
  exact shadeAt_congr hs (hstart ▸ hfirst (hstart.symm ▸ hs.min.abs_lt)) hs.min

/-- The last step starts where the width leads to from the lower end. -/
theorem shadeOfStep_last_eq (hs : s.Bounded a b) (he : (s.min + (s.max - s.min) == n) = true) :
    s.shadeOfStep s.steps = s.shadeAt n := by
  have hsteps : s.steps < 2 ^ 64 := hs.laid.steps_le.trans_lt (by norm_num)
  rw [shadeOfStep, Whole.toFloat_div_self s.steps_pos hsteps, hs.standsFor_width.mul_one_eq]
  exact shadeAt_congr_of_beq hs he

/-- The width of a step is positive, or the positive zero if it is too small for a double. -/
theorem stepSize_eq_zero_or (hs : s.Bounded a b) :
    s.stepSize = 0 ∨ ∃ q, StandsFor s.stepSize q ∧ 0 < q := by
  have hnonneg : 0 ≤ nearest (nearest (b - a) / s.steps) :=
    nearest_nonneg (div_nonneg hs.width_pos.le s.steps_cast_pos.le)
  rcases hnonneg.eq_or_lt with hzero | hpos
  · exact .inl (hs.standsFor_width.div_eq_zero hs.width_pos hs.standsFor_steps
      s.steps_cast_pos hzero.symm)
  · exact .inr ⟨_, hs.standsFor_stepSize, hpos⟩

end Scale

namespace Ramp

variable {s : Scale} {a b : ℚ} {n e : Float}

/-- What a number outside the domain is held to: one of the ends, the upper one as it is found by
adding the width to the lower one, or the start of the last step but one, where rounding does not
let the number reach the last. -/
inductive HeldTo (r : Ramp) (n : Float) : Float → Prop where
  | below : n < r.min → HeldTo r n r.min
  | above {e : Float} : r.max < n → Whole.toFloat r.steps ≤ (n - r.min) / r.stepSize →
      (r.min + (r.max - r.min) == e) = true → HeldTo r n e
  | before : r.max < n → ¬Whole.toFloat r.steps ≤ (n - r.min) / r.stepSize →
      2 ^ (-1000 : ℤ) ≤ value (r.max - r.min) →
      HeldTo r n (r.min + (r.max - r.min) * (Whole.toFloat (r.steps - 1) / Whole.toFloat r.steps))

theorem exists_heldTo (hs : s.Bounded a b)
    (h : n < s.min ∨ s.max < n ∧ 2 ^ (-1000 : ℤ) ≤ value (s.max - s.min)) :
    ∃ e, (ofScale s).HeldTo n e := by
  rcases h with hlt | ⟨hlt, hlarge⟩
  · exact ⟨_, .below hlt⟩
  · by_cases hreach : Whole.toFloat s.steps ≤ (n - s.min) / s.stepSize
    · exact ⟨_, .above hlt hreach (hs.min.roundsTo_add hs.standsFor_width).beq_self⟩
    · exact ⟨_, .before hlt hreach hlarge⟩

theorem val_stepOf_eq (hlooped : s.looped = false) (n : Float) :
    (((ofScale s).stepOf n).val : ℤ) = max 0 (min ((ofScale s).index n) s.steps) :=
  ((ofScale s).lands_stepOf n).held hlooped

theorem index_nonpos (hs : s.Bounded a b) (hn : n.isFinite = true) (hlt : n < s.min) :
    (ofScale s).index n ≤ 0 := by
  have hn := standsFor_value hn
  have hless := (hn.lt_iff hs.min).1 hlt
  have hpos := nearest_sub_pos hn.representable hs.min.representable hless
  have hneg : nearest (value n - a) < 0 := by
    rw [← neg_sub, nearest_neg]
    exact neg_lt_zero.2 hpos
  exact (hn.roundsTo_sub hs.min).ofFloat_floor_div_nonpos hneg (Scale.stepSize_eq_zero_or hs)

/-- The number of steps from the lower end, above the domain. -/
theorem le_nearest_div_stepSize (hs : s.Bounded a b) {c : ℚ} (hc : b ≤ c)
    (hlarge : 2 ^ (-1000 : ℤ) ≤ nearest (b - a)) :
    0 < nearest (nearest (b - a) / s.steps) ∧
      (s.steps - 1 : ℚ) ≤ nearest (nearest (c - a) / nearest (nearest (b - a) / s.steps)) := by
  obtain ⟨hne, hmem⟩ := width_div_stepSize_mem hs.laid hlarge
  have hpos : 0 < nearest (nearest (b - a) / s.steps) :=
    (nearest_nonneg (div_nonneg hs.width_pos.le s.steps_cast_pos.le)).lt_of_ne' hne
  have hdist : nearest (b - a) ≤ nearest (c - a) := nearest_mono (sub_le_sub_right hc a)
  exact ⟨hpos, hmem.1.trans (nearest_mono (div_le_div_of_nonneg_right hdist hpos.le))⟩

/-- Above the domain, a number that does not fall on the last step falls on the one before. -/
theorem index_eq_of_before (hs : s.Bounded a b) (hn : n.isFinite = true) (hlt : s.max < n)
    (hshort : ¬Whole.toFloat s.steps ≤ (n - s.min) / s.stepSize)
    (hlarge : 2 ^ (-1000 : ℤ) ≤ nearest (b - a)) : (ofScale s).index n = s.steps - 1 := by
  have hn := standsFor_value hn
  have hsteps : s.steps ≤ 261120 := hs.laid.steps_le
  have hcount := s.steps_pos
  obtain ⟨hpos, hquot⟩ := le_nearest_div_stepSize hs ((hs.max.lt_iff hn).1 hlt).le hlarge
  have hindex : (ofScale s).index n = Whole.ofFloat (Whole.floor ((n - s.min) / s.stepSize)) := rfl
  have hdiff := hn.roundsTo_sub hs.min
  rw [hindex]
  generalize n - s.min = x at hdiff hshort ⊢
  cases hdiff with
  | finite hx =>
    have hround := hx.roundsTo_div hs.standsFor_stepSize hpos.ne'
    have hless := not_le.1 fun hle => hshort ((RoundsTo.finite hs.standsFor_steps).le hround hle)
    have hfloor := Int.floor_eq_iff (z := s.steps - 1).2 ⟨by push_cast; exact hquot,
      by push_cast; linarith⟩
    rw [hround.ofFloat_floor, hfloor]
    unfold Whole.least Whole.greatest
    omega
  | above hle =>
    rw [hs.standsFor_stepSize.infinite_div hpos] at hshort
    exact absurd ((hs.standsFor_steps.le_infinite_iff _).2 rfl) hshort
  | below hle =>
    have hdist := sub_nonneg.2 (hs.lt.trans ((hs.max.lt_iff hn).1 hlt)).le
    exact absurd ((nearest_nonneg hdist).trans hle) (not_le.2 (neg_lt_zero.2 (two_zpow_pos _)))

/-- Outside the domain, the table has the shade of the end. -/
theorem entry_stepOf_of_heldTo (hs : s.Bounded a b) (hn : n.isFinite = true)
    (h : (ofScale s).HeldTo n e) :
    (ofScale s).entry ((ofScale s).stepOf n) = s.shadeAt e := by
  have hstep := val_stepOf_eq hs.looped n
  refine (entry_ofScale s _).trans ?_
  cases h with
  | below hlt =>
    have hindex := index_nonpos hs hn hlt
    have hval : ((ofScale s).stepOf n).val = 0 := by omega
    rw [hval]
    exact Scale.shadeOfStep_zero_eq hs
  | above hlt hreach hback =>
    have hsteps : s.steps ≤ 261120 := hs.laid.steps_le
    have hindex : (s.steps : ℤ) ≤ (ofScale s).index n := by
      refine StandsFor.le_ofFloat_floor ?_ (by unfold Whole.greatest; omega) hreach
      exact_mod_cast hs.laid.standsFor_steps
    have hval : ((ofScale s).stepOf n).val = s.steps := by omega
    rw [hval]
    exact Scale.shadeOfStep_last_eq hs hback
  | before hlt hshort hlarge =>
    have hindex := index_eq_of_before hs hn hlt hshort (hs.standsFor_width.value_eq ▸ hlarge)
    have hval : ((ofScale s).stepOf n).val = s.steps - 1 := by omega
    rw [hval]
    rfl

end Ramp

/-- The stop at the end of the scale, if the offset leaves both numbers beyond that end. -/
inductive Gradient.Beyond (g : Gradient) (spread : Spread) (n e : Float) : Stop → Prop where
  | below : n + spread.offset ≤ spread.min → e + spread.offset ≤ spread.min →
      Beyond g spread n e g.first
  | above {stop : Stop} : spread.max ≤ n + spread.offset → spread.max ≤ e + spread.offset →
      stop ∈ g.stops.getLast? → Beyond g spread n e stop

theorem Scale.bounded_ofGradient (g : Gradient) {spread : Spread}
    (hmin : spread.min.isFinite = true) (hmax : spread.max.isFinite = true)
    (hlt : spread.min < spread.max) (hwidth : (spread.max - spread.min).isFinite = true)
    (hoffset : spread.offset.isFinite = true) (hlooped : spread.looped = false) :
    (Scale.ofGradient g spread).Bounded (value spread.min) (value spread.max) := by
  have hab := ((standsFor_value hmin).lt_iff (standsFor_value hmax)).1 hlt
  rw [Scale.ofGradient_eq (Scale.not_min_ge_max hmin hmax hlt)]
  exact ⟨standsFor_value hmin, standsFor_value hmax, hab, hwidth, hoffset, hlooped,
    by simpa using g.length_le⟩

/-- Outside the domain of a ramp that is not looped, every number is held to a number of the
domain, and a lookup gives the shade of that. It is the shade of the number too where the offset
leaves both of them beyond the same stop, in places that are not out of range: it is the stop
itself if that is a colour, and else the two agree in every channel of which the next double is not
a whole number. -/
theorem lookup_outside (g : Gradient) (spread : Spread) {n : Float}
    (hmin : spread.min.isFinite = true) (hmax : spread.max.isFinite = true)
    (hlt : spread.min < spread.max) (hwidth : (spread.max - spread.min).isFinite = true)
    (hoffset : spread.offset.isFinite = true) (hlooped : spread.looped = false)
    (hbackground : spread.background = none) (hn : n.isFinite = true) :
    let r := Ramp.ofGradient g spread
    (n < spread.min ∨ spread.max < n ∧ 2 ^ (-1000 : ℤ) ≤ value (spread.max - spread.min) →
      ∃ e, r.HeldTo n e) ∧
    ∀ e, r.HeldTo n e → r.lookup n = r.shadeAt e ∧
      ((∀ s ∈ g.stops, s.IsFinite) → (r.rankOf n).isFinite = true →
        (r.rankOf e).isFinite = true → ∀ stop, g.Beyond spread n e stop →
          (∀ c, stop = Stop.ofColour c → r.lookup n = c ∧ r.shadeAt n = c) ∧
          stop.Near (r.lookup n) ∧ stop.Near (r.shadeAt n) ∧ ∀ k : Channel,
            (k.ofColour (r.lookup n)).toNat ≤ (k.ofColour (r.shadeAt n)).toNat + 1 ∧
            (k.ofColour (r.shadeAt n)).toNat ≤ (k.ofColour (r.lookup n)).toNat + 1 ∧
            (Settled (value (k.ofStop stop)) →
              k.ofColour (r.lookup n) = k.ofColour (r.shadeAt n))) := by
  intro r
  have hs := Scale.bounded_ofGradient g hmin hmax hlt hwidth hoffset hlooped
  have hge := Scale.not_min_ge_max hmin hmax hlt
  have hspread := Scale.toSpread_ofGradient (g := g) hge
  refine ⟨fun h => Ramp.exists_heldTo hs (by rwa [hspread]), fun e he => ?_⟩
  have hlookup : r.lookup n = r.shadeAt e :=
    (Ramp.lookup_of_background_eq_none
      ((congrArg Spread.background hspread).trans hbackground) n).trans
      (Ramp.entry_stepOf_of_heldTo hs hn he)
  refine ⟨hlookup, fun hstops hrank hrank' stop hside => ?_⟩
  have hfinite : ∀ t ∈ (Scale.ofGradient g spread).stops, t.IsFinite := by
    intro t ht
    rw [Scale.stops_ofGradient hge] at ht
    exact hstops t (List.mem_toArray.1 ht)
  have hnear : stop.Near (r.shadeAt e) ∧ stop.Near (r.shadeAt n) := by
    have hofN := Scale.near_shadeAt hs hfinite hrank
    have hofE := Scale.near_shadeAt hs hfinite hrank'
    rw [hspread, Ramp.stopAt_zero_ofGradient hge] at hofN hofE
    cases hside with
    | below hn he => exact ⟨hofE.1 he, hofN.1 hn⟩
    | above hn he hlast =>
      rw [Ramp.stopAt_last_ofGradient hge hlast] at hofN hofE
      exact ⟨hofE.2 he, hofN.2 hn⟩
  rw [← hlookup] at hnear
  obtain ⟨htable, hshade⟩ := hnear
  refine ⟨?_, htable, hshade, fun k => ⟨htable.toNat_le_toNat_add_one hshade k,
    hshade.toNat_le_toNat_add_one htable k, htable.ofColour_eq hshade⟩⟩
  rintro c rfl
  exact ⟨htable.eq_of_ofColour, hshade.eq_of_ofColour⟩

/-- Blue blended into red, from 0 to 1, with all numbers shifted down by a quarter: at a half below
the domain the shade is that of the lower end, and it is blue. -/
theorem lookup_outside_below :
    let g : Gradient :=
      ⟨[Stop.ofColour ⟨0, 0, 255, 255⟩, Stop.ofColour ⟨255, 0, 0, 255⟩], by decide, by decide⟩
    let spread : Spread := { min := 0, max := 1, offset := -0.25 }
    let r := Ramp.ofGradient g spread
    r.HeldTo (-0.5) 0 ∧ (∀ s ∈ g.stops, s.IsFinite) ∧ (r.rankOf (-0.5)).isFinite = true ∧
      (r.rankOf 0).isFinite = true ∧ r.lookup (-0.5) = r.shadeAt 0 ∧
      r.lookup (-0.5) = ⟨0, 0, 255, 255⟩ ∧ r.shadeAt (-0.5) = ⟨0, 0, 255, 255⟩ := by
  intro g spread r
  have hmin : r.min = 0 := Scale.min_ofGradient
  have hbelow : -0.5 < r.min := by decide +kernel
  have hheld : r.HeldTo (-0.5) 0 := hmin ▸ .below hbelow
  have hstops : ∀ s ∈ g.stops, s.IsFinite := by
    intro s hs
    rcases List.mem_pair.1 hs with rfl | rfl
    · exact (Stop.inRange_ofColour _).isFinite
    · exact (Stop.inRange_ofColour _).isFinite
  have hrank : (r.rankOf (-0.5)).isFinite = true := by decide +kernel
  have hrank' : (r.rankOf 0).isFinite = true := by decide +kernel
  obtain ⟨hlookup, hagree⟩ := (lookup_outside g spread (by decide +kernel) (by decide +kernel)
    (by decide +kernel) (by decide +kernel) (by decide +kernel) rfl rfl (by decide +kernel)).2 0
    hheld
  obtain ⟨hblue, -⟩ := hagree hstops hrank hrank' g.first
    (.below (by decide +kernel) (by decide +kernel))
  exact ⟨hheld, hstops, hrank, hrank', hlookup, hblue _ rfl⟩

/-- Where all numbers are shifted up by half the domain, the number a quarter below it is not:
a lookup there gives the shade halfway between the stops, not the one a quarter of the way. -/
theorem exists_lookup_ne_shadeAt :
    ∃ (g : Gradient) (spread : Spread) (n : Float),
      g.stops = [Stop.ofColour ⟨0, 0, 255, 255⟩, Stop.ofColour ⟨255, 0, 0, 255⟩] ∧
      spread.min = 0 ∧ spread.max = 1 ∧ spread.offset = 0.5 ∧ spread.looped = false ∧
      spread.background = none ∧ n = -0.25 ∧ n.isFinite = true ∧ n < spread.min ∧
      (Ramp.ofGradient g spread).lookup n = ⟨127, 0, 127, 255⟩ ∧
      (Ramp.ofGradient g spread).shadeAt n = ⟨63, 0, 191, 255⟩ ∧
      (Ramp.ofGradient g spread).lookup n ≠ (Ramp.ofGradient g spread).shadeAt n := by
  let g : Gradient :=
    ⟨[Stop.ofColour ⟨0, 0, 255, 255⟩, Stop.ofColour ⟨255, 0, 0, 255⟩], by decide, by decide⟩
  let spread : Spread := { min := 0, max := 1, offset := 0.5 }
  have hnone : (Ramp.ofGradient g spread).background = none := Scale.background_ofGradient
  have hlookup : (Ramp.ofGradient g spread).lookup (-0.25) = ⟨127, 0, 127, 255⟩ := by
    rw [Ramp.lookup_of_background_eq_none hnone, Ramp.entry_ofGradient]
    decide +kernel
  have hshade : (Ramp.ofGradient g spread).shadeAt (-0.25) = ⟨63, 0, 191, 255⟩ := by
    decide +kernel
  refine ⟨g, spread, -0.25, rfl, rfl, rfl, rfl, rfl, rfl, rfl, by decide +kernel,
    by decide +kernel, hlookup, hshade, ?_⟩
  rw [hlookup, hshade]
  decide

end Colourway
