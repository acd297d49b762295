/-
  The table of a ramp, against the stops it is worked out from. Shades are blended with a
  ratio from 0 to 1 wherever the upper end of the scale is not too far away, so they lie
  between the stops but for rounding (`Ramp.ofColour_shadeOfStep`, `entry_near_stops`). A shade
  is cut down to whole channels, and rounding may put it just below one: then the whole number
  is lost (`exists_entry_below_stops`).
-/
import Colourway.Proofs.Gradient.Scale

namespace Colourway

open Double

namespace Scale

variable {g : Gradient} {spread : Spread}

theorem ofGradient_eq (h : ¬spread.min ≥ spread.max) :
    ofGradient g spread =
      { spread with stops := g.stops.toArray, size_pos := by simpa using g.length_pos } :=
  if_neg h

theorem not_min_ge_max (hmin : spread.min.isFinite = true) (hmax : spread.max.isFinite = true)
    (hlt : spread.min < spread.max) : ¬spread.min ≥ spread.max := fun h =>
  not_lt.2 (((standsFor_value hmax).le_iff (standsFor_value hmin)).1 h)
    (((standsFor_value hmin).lt_iff (standsFor_value hmax)).1 hlt)

theorem toSpread_ofGradient (h : ¬spread.min ≥ spread.max) :
    (ofGradient g spread).toSpread = spread := by rw [ofGradient_eq h]

theorem stops_ofGradient (h : ¬spread.min ≥ spread.max) :
    (ofGradient g spread).stops = g.stops.toArray := by rw [ofGradient_eq h]

/-- The scale of a gradient between two finite ends, if its width is finite as well. -/
theorem laid_ofGradient (g : Gradient) (hmin : spread.min.isFinite = true)
    (hmax : spread.max.isFinite = true) (hlt : spread.min < spread.max)
    (hwidth : (spread.max - spread.min).isFinite = true) (hoffset : StandsFor spread.offset 0) :
    (ofGradient g spread).Laid (value spread.min) (value (spread.max - spread.min)) := by
  have ha := standsFor_value hmin
  have hb := standsFor_value hmax
  have hab := (ha.lt_iff hb).1 hlt
  have hd := hb.sub_of_isFinite ha hwidth
  have hpos : 0 < value (spread.max - spread.min) := by
    rw [hd.value_eq]
    exact nearest_sub_pos ha.representable hb.representable hab
  rw [ofGradient_eq (not_min_ge_max hmin hmax hlt)]
  exact ⟨ha, ⟨hwidth, rfl⟩, hpos, hoffset, by simpa using g.length_le⟩

end Scale

namespace Ramp

variable {s : Scale} {a d : ℚ}

theorem entry_ofScale (s : Scale) (i : Fin (s.steps + 1)) :
    (ofScale s).entry i = s.shadeOfStep i := by
  unfold entry ofScale
  simp only [Fin.getElem_fin, Array.getElem_ofFn]
  rfl

theorem entry_ofGradient (g : Gradient) (spread : Spread)
    (i : Fin ((ofGradient g spread).steps + 1)) :
    (ofGradient g spread).entry i = (Scale.ofGradient g spread).shadeOfStep i :=
  entry_ofScale _ i

theorem lookup_eq (r : Ramp) (n : Float) :
    r.lookup n =
      if n == 0 then r.background.getD (r.entry (r.stepOf n)) else r.entry (r.stepOf n) := by
  unfold lookup
  cases r.background with
  | none => rw [Option.getD_none, ite_self]
  | some c => rfl

theorem lookup_of_background_eq_none {r : Ramp} (h : r.background = none) (n : Float) :
    r.lookup n = r.entry (r.stepOf n) := by
  rw [lookup_eq, h, Option.getD_none, ite_self]

/-! ## Between the stops -/

theorem blended_mem {p q t low high : ℚ} (hlow : 0 ≤ low) (hhigh : high ≤ 255)
    (hp : p ∈ Set.Icc low high) (hq : q ∈ Set.Icc low high) (ht : t ∈ Set.Icc 0 1) :
    blended p q t ∈ Set.Icc (low - blendError) (high + blendError) := by
  have herr := abs_le.1 (abs_blended_sub_le ⟨hlow.trans hp.1, hp.2.trans hhigh⟩
    ⟨hlow.trans hq.1, hq.2.trans hhigh⟩ ht)
  have hrest := one_sub_mem ht
  have hleast : low ≤ p * (1 - t) + q * t := by nlinarith [hp.1, hq.1, hrest.1, ht.1]
  have hmost : p * (1 - t) + q * t ≤ high := by nlinarith [hp.2, hq.2, hrest.1, ht.1]
  exact ⟨by linarith [herr.1], by linarith [herr.2]⟩

/-- Every step fits into a double if the upper end and its distance from the lower one do. -/
theorem stepStart_fits (hs : s.Laid a d) (hend : |nearest (a + d)| < 2 ^ (1024 : ℤ))
    (hback : |nearest (nearest (a + d) - a)| < 2 ^ (1024 : ℤ)) {i : ℕ} (hi : i ≤ s.steps) :
    |s.stepStart a d i| < 2 ^ (1024 : ℤ) ∧ |nearest (s.stepStart a d i - a)| < 2 ^ (1024 : ℤ) := by
  have hmem := Scale.stepStart_mem hs hi
  have hle := Scale.stepStart_le hs hi
  have ha := abs_lt.1 hs.min.abs_lt
  have hend := abs_lt.1 hend
  have hback := abs_lt.1 hback
  have hnonneg : 0 ≤ nearest (s.stepStart a d i - a) := nearest_nonneg (sub_nonneg.2 hmem.1)
  have hmono := nearest_mono (sub_le_sub_right hle a)
  exact ⟨abs_lt.2 ⟨ha.1.trans_le hmem.1, hle.trans_lt hend.2⟩,
    abs_lt.2 ⟨(neg_lt_zero.2 (by positivity)).trans_le hnonneg, hmono.trans_lt hback.2⟩⟩

/-- A channel of the table lies between the least and the greatest channel of the stops, but
for the rounding of a blend. -/
theorem ofColour_shadeOfStep (hs : s.Laid a d) (k : Channel) {low high : ℚ} (hlow : 0 ≤ low)
    (hhigh : high ≤ 255)
    (hstops : ∀ t ∈ s.stops, ∃ p ∈ Set.Icc low high, StandsFor (k.ofStop t) p)
    (hend : |nearest (a + d)| < 2 ^ (1024 : ℤ))
    (hback : |nearest (nearest (a + d) - a)| < 2 ^ (1024 : ℤ)) {i : ℕ} (hi : i ≤ s.steps) :
    ⌊low - blendError⌋ ≤ (k.ofColour (s.shadeOfStep i)).toNat ∧
      (k.ofColour (s.shadeOfStep i)).toNat ≤ ⌊high + blendError⌋ := by
  obtain ⟨hfits, hfits'⟩ := stepStart_fits hs hend hback hi
  obtain ⟨ratio, hratio, hblend⟩ := Scale.blendAt_eq hs
    (Scale.standsFor_stepStart hs hi hfits) (Scale.stepStart_mem hs hi) hfits'
  obtain ⟨p, hp, hps⟩ := hstops _ (s.stopAt_mem ⌊s.scaled a d (s.stepStart a d i)⌋)
  obtain ⟨q, hq, hqs⟩ := hstops _ (s.stopAt_mem (⌊s.scaled a d (s.stepStart a d i)⌋ + 1))
  have ht := (Scale.nearest_fract_mem (s.scaled a d (s.stepStart a d i))).1
  have hbetween := hps.between hqs hratio ⟨hlow.trans hp.1, hp.2.trans hhigh⟩
    ⟨hlow.trans hq.1, hq.2.trans hhigh⟩ ht
  have hmem := blended_mem hlow hhigh hp hq ht
  have hleast := Int.floor_mono hmem.1
  have hmost := Int.floor_mono hmem.2
  have herror : 0 ≤ blendError := by unfold blendError; positivity
  have hbelow : ⌊low - blendError⌋ ≤ 255 :=
    Int.floor_le_iff.2 (by push_cast; linarith [hp.1, hp.2])
  have habove : 0 ≤ ⌊high + blendError⌋ := Int.floor_nonneg.2 (by linarith [hp.1, hp.2])
  rw [Scale.shadeOfStep, Scale.shadeAt, hblend, k.ofColour_truncate, k.ofStop_blend,
    toNat_toUInt8 hbetween]
  omega

end Ramp

/-- Between finite ends with a finite distance, in each channel: every shade of the table lies
between the least and the greatest channel of the stops, or so little outside that the
difference shows only where it is next to a whole number. A channel that is the same whole
number in all stops is this number in every shade, or one less. -/
theorem entry_near_stops (g : Gradient) (spread : Spread) (k : Channel) {low high : ℚ}
    (hmin : spread.min.isFinite = true) (hmax : spread.max.isFinite = true)
    (hlt : spread.min < spread.max) (hwidth : (spread.max - spread.min).isFinite = true)
    (hend : (spread.min + (spread.max - spread.min) - spread.min).isFinite = true)
    (hoffset : StandsFor spread.offset 0) (hlow : 0 ≤ low) (hhigh : high ≤ 255)
    (hstops : ∀ s ∈ g.stops, ∃ p ∈ Set.Icc low high, StandsFor (k.ofStop s) p)
    (i : Fin ((Ramp.ofGradient g spread).steps + 1)) :
    ⌊low - blendError⌋ ≤ (k.ofColour ((Ramp.ofGradient g spread).entry i)).toNat ∧
      (k.ofColour ((Ramp.ofGradient g spread).entry i)).toNat ≤ ⌊high + blendError⌋ ∧
      ∀ n : ℕ, low = n → high = n →
        (k.ofColour ((Ramp.ofGradient g spread).entry i)).toNat = n ∨
          (k.ofColour ((Ramp.ofGradient g spread).entry i)).toNat + 1 = n := by
  have hs := Scale.laid_ofGradient g hmin hmax hlt hwidth hoffset
  have htop := (standsFor_value hmin).add_of_isFinite ⟨hwidth, rfl⟩ (isFinite_of_sub hend)
  have hback := htop.sub_of_isFinite (standsFor_value hmin) hend
  have hmem : ∀ t ∈ (Scale.ofGradient g spread).stops,
      ∃ p ∈ Set.Icc low high, StandsFor (k.ofStop t) p := by
    intro t ht
    rw [Scale.stops_ofGradient (Scale.not_min_ge_max hmin hmax hlt)] at ht
    exact hstops t (List.mem_toArray.1 ht)
  obtain ⟨hleast, hmost⟩ := Ramp.ofColour_shadeOfStep hs k hlow hhigh hmem htop.abs_lt
    hback.abs_lt (Nat.le_of_lt_succ i.isLt)
  rw [Ramp.entry_ofGradient]
  refine ⟨hleast, hmost, fun n hn hn' => ?_⟩
  have herror : 0 ≤ blendError ∧ blendError < 1 := by
    unfold blendError
    norm_num
  have hbelow : (n : ℤ) - 1 ≤ ⌊low - blendError⌋ :=
    Int.le_floor.2 (by push_cast; linarith [herror.2])
  have habove : ⌊high + blendError⌋ ≤ n :=
    Int.floor_le_iff.2 (by push_cast; linarith [herror.2])
  omega

/-- White blended into white, from 0 to 1. -/
theorem entry_near_stops_white :
    let white : Gradient :=
      ⟨[Stop.ofColour .white, Stop.ofColour .white], by decide, by decide⟩
    (∀ s ∈ white.stops, ∃ p ∈ Set.Icc (255 : ℚ) 255, StandsFor (Channel.cover.ofStop s) p) ∧
      Spread.unit.min < Spread.unit.max ∧
      (Spread.unit.min + (Spread.unit.max - Spread.unit.min) - Spread.unit.min).isFinite = true ∧
      ∀ i, (Channel.cover.ofColour ((Ramp.ofGradient white .unit).entry i)).toNat = 255 ∨
        (Channel.cover.ofColour ((Ramp.ofGradient white .unit).entry i)).toNat = 254 := by
  intro white
  have hstops : ∀ s ∈ white.stops,
      ∃ p ∈ Set.Icc (255 : ℚ) 255, StandsFor (Channel.cover.ofStop s) p := by
    intro s hs
    have hwhite : s = Stop.ofColour .white := by simpa [white] using hs
    refine ⟨255, ⟨le_rfl, le_rfl⟩, ?_⟩
    rw [hwhite]
    exact_mod_cast standsFor_toFloat_uint8 255
  have hend : (Spread.unit.min + (Spread.unit.max - Spread.unit.min) -
      Spread.unit.min).isFinite = true := by decide +kernel
  have hlt : Spread.unit.min < Spread.unit.max := by decide +kernel
  refine ⟨hstops, hlt, hend, fun i => ?_⟩
  have h := (entry_near_stops white .unit .cover (by decide +kernel) (by decide +kernel) hlt
    (by decide +kernel) hend standsFor_zero (by norm_num) (by norm_num) hstops i).2.2 255
    (by norm_num) (by norm_num)
  omega

/-- The table does fall short: white blended into white, from 0 to 1, is one less than white in
every channel at step 148. -/
theorem exists_entry_below_stops :
    ∃ g : Gradient, g.stops = [Stop.ofColour .white, Stop.ofColour .white] ∧
      ∀ k : Channel, (k.ofColour ((Ramp.ofGradient g .unit).entry 148)).toNat = 254 := by
  refine ⟨⟨[Stop.ofColour .white, Stop.ofColour .white], by decide, by decide⟩, rfl, fun k => ?_⟩
  rw [Ramp.entry_ofGradient]
  cases k <;> decide +kernel

end Colourway
