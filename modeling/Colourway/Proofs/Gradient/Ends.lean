/-
  Lookups at the two ends of a ramp. The lower end falls on the first step (`Ramp.stepOf_min`),
  whose shade is the first stop (`Ramp.shadeOfStep_zero`). The shade of the last step is the
  last stop, if the upper end is found again by adding the width to the lower one
  (`Ramp.shadeOfStep_last`). The upper end itself falls on the last step or on the one before
  (`Ramp.stepOf_max`), because the width over the width of a step may be rounded to less than
  the number of steps: from 0 to 33 it is (`exists_lookup_max_below_last`). `lookup_ends` puts
  all this together.
-/
import Colourway.Proofs.Gradient.Ramp

namespace Colourway

open Double Float.Model

namespace Ramp

variable {r : Ramp} {s : Scale} {a d : ℚ} {n : Float}

/-! ## Finding the step -/

/-- A step of the table is found as it is, on a looped ramp too. -/
theorem val_stepOf {i : ℕ} (h : Whole.ofFloat (Whole.floor ((n - r.min) / r.stepSize)) = i)
    (hi : i ≤ r.steps) : (r.stepOf n).val = i := by
  unfold stepOf
  dsimp only
  rw [h]
  split
  case isTrue hwrap =>
    have hne : (i : ℤ) ≠ r.steps := by
      simp only [Bool.and_eq_true, bne_iff_ne] at hwrap
      exact hwrap.2
    have hmod : (i : ℤ) % r.steps = i := Int.emod_eq_of_lt (by omega) (by omega)
    simp only [Whole.wrap, Fin.val_castSucc, hmod]
    omega
  case isFalse =>
    simp only [Whole.hold]
    omega

/-- Zero over anything finite counts as the first step, even over zero. -/
theorem ofFloat_floor_div_eq_zero {x y : Float} {q : ℚ} (hx : StandsFor x 0) (hy : StandsFor y q) :
    Whole.ofFloat (Whole.floor (x / y)) = 0 := by
  by_cases hq : q = 0
  · obtain ⟨t, ht⟩ := hx.exists_unpack_eq_zero
    obtain ⟨t', ht'⟩ := (hq ▸ hy).exists_unpack_eq_zero
    have hdiv : x / y = .ofModel (.pack .notANumber) := by
      have h : x / y = .ofModel (.pack (UnpackedFloat.div .binary64 x.toModel.unpack
        y.toModel.unpack)) := rfl
      rw [h, ht, ht']
      rfl
    rw [hdiv]
    decide +kernel
  · have hkeep : nearest (0 / q) = 0 := by rw [zero_div, nearest_zero]
    have hdiv := hx.div hy hq (by rw [hkeep, abs_zero]; positivity)
    rw [hkeep] at hdiv
    have hfloor := hdiv.floor
    rw [Int.floor_zero] at hfloor
    exact hfloor.ofFloat_eq

theorem standsFor_stepSize (hs : s.Laid a d) :
    StandsFor s.stepSize (nearest (d / s.steps)) := by
  have hdiv : d / s.steps ≤ d :=
    div_le_self hs.width_pos.le (by exact_mod_cast s.steps_pos)
  have hnonneg : 0 ≤ nearest (d / s.steps) :=
    nearest_nonneg (div_nonneg hs.width_pos.le s.steps_cast_pos.le)
  refine hs.width.div hs.standsFor_steps s.steps_cast_pos.ne' ?_
  rw [abs_of_nonneg hnonneg]
  exact (nearest_le hs.width.representable hdiv).trans_lt ((le_abs_self d).trans_lt hs.width.abs_lt)

theorem stepOf_min (hs : s.Laid a d) : ((ofScale s).stepOf s.min).val = 0 := by
  refine val_stepOf (i := 0) ?_ (Nat.zero_le _)
  have hkeep : nearest (a - a) = 0 := by rw [sub_self, nearest_zero]
  have hsub := hs.min.sub hs.min (by rw [hkeep, abs_zero]; positivity)
  rw [hkeep] at hsub
  exact ofFloat_floor_div_eq_zero hsub (standsFor_stepSize hs)

/-! ## The first and the last shade -/

/-- A step that falls on a stop has the shade of this stop. -/
theorem shadeOfStep_of_scaled (hs : s.Laid a d) (hstops : ∀ t ∈ s.stops, t.InRange) {i j : ℕ}
    (hi : i ≤ s.steps) (hfits : |s.stepStart a d i| < 2 ^ (1024 : ℤ))
    (hfits' : |nearest (s.stepStart a d i - a)| < 2 ^ (1024 : ℤ))
    (hscaled : s.scaled a d (s.stepStart a d i) = j) :
    s.shadeOfStep i = (s.stopAt j).truncate := by
  obtain ⟨ratio, hratio, hblend⟩ := Scale.blendAt_eq hs (Scale.standsFor_stepStart hs hi hfits)
    (Scale.stepStart_mem hs hi) hfits'
  rw [hscaled, Int.fract_natCast, nearest_zero] at hratio
  rw [hscaled, Int.floor_natCast] at hblend
  rw [Scale.shadeOfStep, Scale.shadeAt, hblend]
  exact Stop.truncate_blend_zero (hstops _ (s.stopAt_mem _)).isFinite
    (hstops _ (s.stopAt_mem _)).isFinite hratio

theorem stepStart_zero (ha : Representable a) : s.stepStart a d 0 = a := by
  rw [Scale.stepStart, Nat.cast_zero, zero_div, nearest_zero]
  exact partWay_zero ha

theorem stepStart_last (hd : Representable d) : s.stepStart a d s.steps = nearest (a + d) := by
  rw [Scale.stepStart, div_self s.steps_cast_pos.ne', nearest_of_representable representable_one]
  exact partWay_one hd

theorem shadeOfStep_zero (hs : s.Laid a d) (hstops : ∀ t ∈ s.stops, t.InRange) :
    s.shadeOfStep 0 = (s.stopAt (0 : ℕ)).truncate := by
  have hstart := stepStart_zero (s := s) (d := d) hs.min.representable
  have hback : nearest (s.stepStart a d 0 - a) = 0 := by rw [hstart, sub_self, nearest_zero]
  refine shadeOfStep_of_scaled hs hstops (Nat.zero_le _) ?_ ?_ ?_
  · rw [hstart]
    exact hs.min.abs_lt
  · rw [hback, abs_zero]
    positivity
  · rw [Scale.scaled, Scale.position, hback, zero_div, nearest_zero, zero_mul, nearest_zero,
      Nat.cast_zero]

/-- The last shade is the last stop, if the upper end is found where it was put. -/
theorem shadeOfStep_last (hs : s.Laid a d) (hstops : ∀ t ∈ s.stops, t.InRange)
    (hend : |nearest (a + d)| < 2 ^ (1024 : ℤ)) (hback : nearest (nearest (a + d) - a) = d) :
    s.shadeOfStep s.steps = (s.stopAt (s.stops.size - 1 : ℕ)).truncate := by
  have hone : nearest 1 = 1 := nearest_of_representable representable_one
  have hstart := stepStart_last (s := s) (a := a) hs.width.representable
  refine shadeOfStep_of_scaled hs hstops le_rfl ?_ ?_ ?_
  · rwa [hstart]
  · rw [hstart, hback]
    exact hs.width.abs_lt
  · rw [Scale.scaled, Scale.position, hstart, hback, div_self hs.width_pos.ne', hone, one_mul,
      nearest_of_representable (representable_natCast (hs.lastIndex_le.trans (by norm_num)))]

theorem stopAt_natCast {i : ℕ} (hi : i < s.stops.size) : s.stopAt i = s.stops[i] := by
  unfold Scale.stopAt
  split_ifs
  · have hmod : (i : ℤ) % s.stops.size = i := Int.emod_eq_of_lt (by omega) (by omega)
    simp only [Whole.wrap, hmod, Int.toNat_natCast, Fin.getElem_fin]
  · have hhold : (max 0 (min (i : ℤ) (s.stops.size - 1))).toNat = i := by omega
    simp only [Whole.hold, hhold, Fin.getElem_fin]

/-! ## The step of the upper end -/

theorem abs_nearest_stepSize_sub_le (hs : s.Laid a d) (hlarge : 2 ^ (-1000 : ℤ) ≤ d) :
    |nearest (d / s.steps) - d / s.steps| ≤ 2 ^ (-53 : ℤ) * (d / s.steps) := by
  have hsteps : (s.steps : ℚ) ≤ 2 ^ 18 := by exact_mod_cast hs.steps_le.trans (by norm_num)
  have habs : |d / s.steps| = d / s.steps := abs_of_pos (div_pos hs.width_pos s.steps_cast_pos)
  have hnormal : 2 ^ (-1022 : ℤ) ≤ |d / s.steps| := by
    rw [habs, le_div_iff₀ s.steps_cast_pos]
    calc (2 : ℚ) ^ (-1022 : ℤ) * s.steps ≤ 2 ^ (-1022 : ℤ) * 2 ^ 18 :=
          mul_le_mul_of_nonneg_left hsteps (two_zpow_pos _).le
      _ ≤ 2 ^ (-1000 : ℤ) := by
          rw [← zpow_natCast, ← zpow_add₀ (by norm_num)]
          exact zpow_le_zpow_right₀ (by norm_num) (by norm_num)
      _ ≤ d := hlarge
  have h := abs_nearest_sub_le_mul hnormal
  rwa [habs] at h

/-- A small error in the width of a step adds or takes away less than half a step. -/
theorem mul_div_mem {w v n : ℚ} (hw : 0 < w) (hv : |v - w| ≤ 2 ^ (-53 : ℤ) * w) (hn : 0 ≤ n)
    (hn' : n ≤ 261120) : 0 < v ∧ w * n / v ∈ Set.Icc (n - 1) (n + 1 / 2) := by
  have herr := abs_le.1 hv
  norm_num at herr
  have hpos : 0 < v := by linarith [herr.1]
  refine ⟨hpos, (le_div_iff₀ hpos).2 ?_, (div_le_iff₀ hpos).2 ?_⟩
  · nlinarith [herr.2]
  · nlinarith [herr.1]

/-- The width over the width of a step is the number of steps, or falls short of it, or exceeds
it, by less than one. -/
theorem width_div_stepSize_mem (hs : s.Laid a d) (hlarge : 2 ^ (-1000 : ℤ) ≤ d) :
    nearest (d / s.steps) ≠ 0 ∧
      nearest (d / nearest (d / s.steps)) ∈ Set.Icc (s.steps - 1 : ℚ) (s.steps + 1 / 2) := by
  have hle := hs.steps_le
  obtain ⟨hpos, hquot⟩ := mul_div_mem (div_pos hs.width_pos s.steps_cast_pos)
    (abs_nearest_stepSize_sub_le hs hlarge) s.steps_cast_pos.le (by exact_mod_cast hle)
  rw [div_mul_cancel₀ _ s.steps_cast_pos.ne'] at hquot
  have hr : Representable (s.steps - 1 : ℚ) := by
    have h := representable_natCast (n := s.steps - 1) (by omega)
    rwa [Nat.cast_sub s.steps_pos, Nat.cast_one] at h
  exact ⟨hpos.ne', le_nearest hr hquot.1, nearest_le (representable_add_half (by omega)) hquot.2⟩

/-- The width over the width of a step, as it is computed. -/
theorem standsFor_width_div_stepSize (hs : s.Laid a d) (hlarge : 2 ^ (-1000 : ℤ) ≤ d) :
    StandsFor ((s.max - s.min) / s.stepSize) (nearest (d / nearest (d / s.steps))) := by
  obtain ⟨hne, hmem⟩ := width_div_stepSize_mem hs hlarge
  have hsteps : (s.steps : ℚ) ≤ 261120 := by exact_mod_cast hs.steps_le
  have hone : (1 : ℚ) ≤ s.steps := by exact_mod_cast s.steps_pos
  refine hs.width.div (standsFor_stepSize hs) hne ?_
  rw [abs_of_nonneg (by linarith [hmem.1])]
  have h19 : nearest (d / nearest (d / s.steps)) < 2 ^ (19 : ℤ) := by
    norm_num
    linarith [hmem.2]
  exact h19.trans (zpow_lt_zpow_right₀ one_lt_two (by norm_num))

/-- The upper end is looked up in the last step, or in the one before. -/
theorem stepOf_max (hs : s.Laid a d) (hlarge : 2 ^ (-1000 : ℤ) ≤ d) :
    ((ofScale s).stepOf s.max).val =
      if Whole.toFloat s.steps ≤ (s.max - s.min) / s.stepSize then s.steps else s.steps - 1 := by
  have hmem := (width_div_stepSize_mem hs hlarge).2
  have hquot := standsFor_width_div_stepSize hs hlarge
  have hreach := hs.standsFor_steps.le_iff hquot
  have hle := hs.steps_le
  have hpos := s.steps_pos
  -- the computed number of steps is the true one or one less
  obtain ⟨i, hi⟩ : ∃ i, i = if Whole.toFloat s.steps ≤ (s.max - s.min) / s.stepSize then s.steps
    else s.steps - 1 := ⟨_, rfl⟩
  have hfloor : ⌊nearest (d / nearest (d / s.steps))⌋ = (i : ℤ) := by
    rw [Int.floor_eq_iff, hi]
    split_ifs with h
    · have hge := hreach.1 h
      push_cast
      exact ⟨hge, by linarith [hmem.2]⟩
    · have hlt := not_le.1 fun hge => h (hreach.2 hge)
      rw [Nat.cast_sub hpos]
      push_cast
      exact ⟨hmem.1, by linarith⟩
  have hile : i ≤ s.steps := by
    rw [hi]
    split_ifs <;> omega
  rw [← hi]
  refine val_stepOf (hquot.floor.ofFloat_eq.trans ?_) hile
  rw [hfloor]
  unfold Whole.least Whole.greatest
  omega

theorem getElem?_stops_ofGradient {g : Gradient} {spread : Spread} {i : ℕ}
    (h : ¬spread.min ≥ spread.max) (hi : i < g.stops.length) :
    g.stops[i]? = some ((Scale.ofGradient g spread).stopAt i) := by
  have hstops := Scale.stops_ofGradient (g := g) h
  have hi' : i < (Scale.ofGradient g spread).stops.size := by rwa [hstops, List.size_toArray]
  have hget := Array.getElem?_eq_getElem hi'
  rw [← stopAt_natCast hi'] at hget
  rw [← hget, hstops, List.getElem?_toArray]

theorem stopAt_zero_ofGradient {g : Gradient} {spread : Spread} (h : ¬spread.min ≥ spread.max) :
    (Scale.ofGradient g spread).stopAt 0 = g.first := by
  have hfirst := getElem?_stops_ofGradient h g.length_pos
  rw [List.getElem?_eq_getElem g.length_pos, Option.some_inj] at hfirst
  exact hfirst.symm

theorem stopAt_last_ofGradient {g : Gradient} {spread : Spread} {last : Stop}
    (h : ¬spread.min ≥ spread.max) (hlast : last ∈ g.stops.getLast?) :
    (Scale.ofGradient g spread).stopAt ((Scale.ofGradient g spread).stops.size - 1 : ℕ) = last := by
  have hstop := getElem?_stops_ofGradient h (Nat.sub_lt g.length_pos one_pos)
  rw [← List.getLast?_eq_getElem?, hlast, Option.some_inj] at hstop
  rw [Scale.stops_ofGradient h, List.size_toArray, ← hstop]

/-- The last entry of the table, if the upper end is found again by adding the width to the
lower one. -/
theorem entry_last {g : Gradient} {spread : Spread} (h : ¬spread.min ≥ spread.max)
    (hs : (Scale.ofGradient g spread).Laid (value spread.min) (value (spread.max - spread.min)))
    (hstops : ∀ t ∈ (Scale.ofGradient g spread).stops, t.InRange)
    (hback : (spread.min + (spread.max - spread.min) - spread.min ==
      spread.max - spread.min) = true) {last : Stop} (hlast : last ∈ g.stops.getLast?) :
    (ofGradient g spread).entry (Fin.last _) = last.truncate := by
  have ha : StandsFor spread.min _ := Scale.toSpread_ofGradient (g := g) h ▸ hs.min
  have hd : StandsFor (spread.max - spread.min) _ := Scale.toSpread_ofGradient (g := g) h ▸ hs.width
  have hfound := StandsFor.of_beq hback hd
  have htop := ha.add_of_isFinite hd (isFinite_of_sub hfound.isFinite)
  have hround := (htop.sub_of_isFinite ha hfound.isFinite).value_eq.symm.trans hfound.value_eq
  have hshade := shadeOfStep_last hs hstops htop.abs_lt hround
  rw [stopAt_last_ofGradient h hlast] at hshade
  rw [entry_ofGradient]
  exact hshade

end Ramp

/-- Between finite ends with a finite distance: the lower end has the shade of the first stop.
The last shade of the table is that of the last stop, if the upper end is found again by adding
the distance to the lower one. And the upper end has the last shade of the table, or the last
but one where dividing the distance by the width of a step falls short of the number of steps. -/
theorem lookup_ends (g : Gradient) (spread : Spread) (hmin : spread.min.isFinite = true)
    (hmax : spread.max.isFinite = true) (hlt : spread.min < spread.max)
    (hwidth : (spread.max - spread.min).isFinite = true) (hoffset : StandsFor spread.offset 0)
    (hbackground : spread.background = none) (hstops : ∀ s ∈ g.stops, s.InRange) :
    (Ramp.ofGradient g spread).lookup spread.min = g.first.truncate ∧
    ((spread.min + (spread.max - spread.min) - spread.min == spread.max - spread.min) = true →
      ∀ last ∈ g.stops.getLast?,
        (Ramp.ofGradient g spread).entry (Fin.last _) = last.truncate) ∧
    (2 ^ (-1000 : ℤ) ≤ value (spread.max - spread.min) →
      ∃ i : Fin ((Ramp.ofGradient g spread).steps + 1),
        (Ramp.ofGradient g spread).lookup spread.max = (Ramp.ofGradient g spread).entry i ∧
        i.val = if Whole.toFloat (Ramp.ofGradient g spread).steps ≤
            (spread.max - spread.min) / (Ramp.ofGradient g spread).stepSize
          then (Ramp.ofGradient g spread).steps else (Ramp.ofGradient g spread).steps - 1) := by
  have hs := Scale.laid_ofGradient g hmin hmax hlt hwidth hoffset
  have hge := Scale.not_min_ge_max hmin hmax hlt
  have hspread := Scale.toSpread_ofGradient (g := g) hge
  have hinRange : ∀ t ∈ (Scale.ofGradient g spread).stops, t.InRange := by
    intro t ht
    rw [Scale.stops_ofGradient hge] at ht
    exact hstops t (List.mem_toArray.1 ht)
  have hlookup := Ramp.lookup_of_background_eq_none (r := Ramp.ofGradient g spread)
    ((congrArg Spread.background hspread).trans hbackground)
  refine ⟨?_, fun hback last hlast => Ramp.entry_last hge hs hinRange hback hlast,
    fun hlarge => ⟨_, hlookup spread.max, ?_⟩⟩
  · have hstep : ((Ramp.ofGradient g spread).stepOf spread.min).val = 0 := by
      have h := Ramp.stepOf_min hs
      rwa [congrArg Spread.min hspread] at h
    rw [hlookup, Ramp.entry_ofGradient, hstep, Ramp.shadeOfStep_zero hs hinRange,
      Nat.cast_zero, Ramp.stopAt_zero_ofGradient hge]
  · have h := Ramp.stepOf_max hs hlarge
    rw [congrArg Spread.max hspread, congrArg Spread.min hspread] at h
    exact h

/-- Black blended into white, from 0 to 33: the upper end is one step short. -/
theorem lookup_ends_last_but_one :
    let grey : Gradient := ⟨[Stop.ofColour .black, Stop.ofColour .white], by decide, by decide⟩
    let spread : Spread := { min := 0, max := 33 }
    spread.min < spread.max ∧ (∀ s ∈ grey.stops, s.InRange) ∧
      (spread.min + (spread.max - spread.min) - spread.min == spread.max - spread.min) = true ∧
      2 ^ (-1000 : ℤ) ≤ value (spread.max - spread.min) ∧
      (Ramp.ofGradient grey spread).lookup 0 = Colour.black ∧
      (Ramp.ofGradient grey spread).entry (Fin.last _) = Colour.white ∧
      ∃ i, (Ramp.ofGradient grey spread).lookup 33 = (Ramp.ofGradient grey spread).entry i ∧
        i.val = 509 := by
  intro grey spread
  have hlt : spread.min < spread.max := by decide +kernel
  have hstops : ∀ s ∈ grey.stops, s.InRange := by
    intro s hs
    rcases List.mem_pair.1 hs with rfl | rfl
    · exact Stop.inRange_ofColour _
    · exact Stop.inRange_ofColour _
  have hfound : (spread.min + (spread.max - spread.min) - spread.min ==
      spread.max - spread.min) = true := by decide +kernel
  have hwidth : spread.max - spread.min = Whole.toFloat 33 := by decide +kernel
  have hlarge : (2 : ℚ) ^ (-1000 : ℤ) ≤ value (spread.max - spread.min) := by
    rw [hwidth, (standsFor_toFloat (n := 33) (by norm_num)).value_eq]
    exact (zpow_le_one_of_nonpos₀ (by norm_num) (by norm_num)).trans (by norm_num)
  have hshort : ¬Whole.toFloat (Ramp.ofGradient grey spread).steps ≤
      (spread.max - spread.min) / (Ramp.ofGradient grey spread).stepSize := by decide +kernel
  obtain ⟨hfirst, hlast, hupper⟩ := lookup_ends grey spread (by decide +kernel)
    (by decide +kernel) hlt (by decide +kernel) standsFor_zero rfl hstops
  obtain ⟨i, hi, hval⟩ := hupper hlarge
  rw [if_neg hshort] at hval
  have hsteps : (Ramp.ofGradient grey spread).steps - 1 = 509 := by decide +kernel
  have hblack : grey.first.truncate = Colour.black := by decide +kernel
  have hwhite : (Stop.ofColour .white).truncate = Colour.white := by decide +kernel
  exact ⟨hlt, hstops, hfound, hlarge, hfirst.trans hblack,
    (hlast hfound _ rfl).trans hwhite, i, hi, hval.trans hsteps⟩

/-- The shade there is not the last one: it falls short of white. -/
theorem exists_lookup_max_below_last :
    ∃ g : Gradient, g.stops = [Stop.ofColour .black, Stop.ofColour .white] ∧
      (Ramp.ofGradient g { min := 0, max := 33 }).lookup 33 = ⟨254, 254, 254, 255⟩ := by
  refine ⟨⟨[Stop.ofColour .black, Stop.ofColour .white], by decide, by decide⟩, rfl, ?_⟩
  rw [Ramp.lookup_of_background_eq_none rfl, Ramp.entry_ofGradient]
  decide +kernel

end Colourway
