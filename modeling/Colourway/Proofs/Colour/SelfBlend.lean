/-
  Blends of a stop with itself. Each channel is taken apart and put together again. If what the
  ratio leaves of 1 is a double, whole channels are the same again (`blended_self_natCast`), and so
  is the stop of a colour. Others may come out as the next double, and if this is a whole number,
  they are cut down to it (`Stop.near_blend_self`).

  This holds for channels of any size, though the sum of the parts may be out of reach of doubles:
  what is cut down is held to the range of colours, and the parts of greater channels are greater.

  The ratios of places outside a row of stops are of this kind, but not those between its first
  two stops: there they may be too near zero (`representable_one_sub`).
-/
import Colourway.Proofs.Colour.Blend
import Colourway.Proofs.Double.Overflow
import Colourway.Proofs.Double.Parts

namespace Colourway

namespace Double

variable {x r : Float} {p q t : ℚ} {n : ℕ}

/-! ## Cutting down -/

/-- A number cut down to a whole one and held to the range of channels. -/
def cut (p : ℚ) : ℕ := min ⌊p⌋.toNat 255

theorem cut_mono (h : p ≤ q) : cut p ≤ cut q :=
  min_le_min_right 255 (Int.toNat_le_toNat (Int.floor_mono h))

theorem cut_of_nonpos (h : p ≤ 0) : cut p = 0 := by
  have hfloor := Int.floor_nonpos h
  unfold cut
  omega

theorem cut_of_le (h : 255 ≤ p) : cut p = 255 := by
  have hfloor : 255 ≤ ⌊p⌋ := Int.le_floor.2 (by exact_mod_cast h)
  unfold cut
  omega

theorem cut_le (p : ℚ) : cut p ≤ 255 := min_le_right _ _

theorem cut_natCast (hn : n ≤ 255) : cut n = n := by
  rw [cut, Int.floor_natCast, Int.toNat_natCast, min_eq_left hn]

theorem cut_le_self (hp : 0 ≤ p) : (cut p : ℚ) ≤ p := by
  have hfloor := Int.floor_nonneg.2 hp
  have hle : (cut p : ℤ) ≤ ⌊p⌋ := by
    unfold cut
    omega
  exact_mod_cast Int.le_floor.1 hle

/-- The next double is cut down to the same whole number. -/
def Settled (p : ℚ) : Prop := ∃ q, Representable q ∧ p < q ∧ cut q = cut p

theorem settled_natCast (hn : n ≤ 255) : Settled n := by
  have hfloor : ⌊(n : ℚ) + 1 / 2⌋ = n := Int.floor_eq_iff.2 ⟨by norm_num, by norm_num⟩
  refine ⟨n + 1 / 2, representable_add_half (by omega), by norm_num, ?_⟩
  rw [cut_natCast hn, cut, hfloor, Int.toNat_natCast, min_eq_left hn]

theorem lt_cut_add_one (h : p < 255) : p < (cut p + 1 : ℕ) ∧ cut p + 1 ≤ 255 := by
  have hfloor : ⌊p⌋ < 255 := Int.floor_lt.2 (by exact_mod_cast h)
  have hcut : ⌊p⌋ + 1 ≤ (cut p + 1 : ℕ) ∧ cut p + 1 ≤ 255 := by
    unfold cut
    omega
  exact ⟨(Int.lt_floor_add_one p).trans_le (by exact_mod_cast hcut.1), hcut.2⟩

/-! ## The two parts of a channel -/

theorem blended_self_mono (ht : t ∈ Set.Icc 0 1) (h : p ≤ q) :
    blended p p t ≤ blended q q t := by
  have hrest := nearest_nonneg (one_sub_mem ht).1
  exact nearest_mono (add_le_add (nearest_mono (mul_le_mul_of_nonneg_right h hrest))
    (nearest_mono (mul_le_mul_of_nonneg_right h ht.1)))

theorem blended_self_nonpos (hp : p ≤ 0) (ht : t ∈ Set.Icc 0 1) : blended p p t ≤ 0 := by
  have hzero : blended 0 0 t = 0 := by
    unfold blended parts
    simp only [zero_mul, nearest_zero, add_zero]
  exact hzero ▸ blended_self_mono ht hp

/-- Where the rest of the ratio is exact, only the two parts and their sum are rounded. -/
theorem blended_self_eq (p : ℚ) (hrest : Representable (1 - t)) :
    blended p p t = nearest (nearest (p * (1 - t)) + nearest (p * t)) := by
  rw [blended, parts, nearest_of_representable hrest]

theorem mul_one_sub_add_mul (p t : ℚ) : p * (1 - t) + p * t = p := by ring

theorem blended_self_natCast (hn : n < 2 ^ 51) (ht : t ∈ Set.Icc 0 1)
    (hrest : Representable (1 - t)) : blended n n t = n := by
  have hn0 : (0 : ℚ) ≤ n := Nat.cast_nonneg n
  rw [blended_self_eq _ hrest]
  exact nearest_add_nearest_eq (mul_nonneg hn0 (one_sub_mem ht).1) (mul_nonneg hn0 ht.1)
    (mul_one_sub_add_mul _ t) hn

theorem blended_self_le (hp : Representable p) (hp0 : 0 ≤ p) (ht : t ∈ Set.Icc 0 1)
    (hrest : Representable (1 - t)) (hq : Representable q) (h : p < q) : blended p p t ≤ q := by
  have hsum := mul_one_sub_add_mul p t
  rw [blended_self_eq _ hrest]
  exact nearest_add_nearest_le (mul_nonneg hp0 (one_sub_mem ht).1) (mul_nonneg hp0 ht.1)
    (hsum.symm ▸ hp) hq (hsum.trans_lt h)

/-- No whole number is lost. -/
theorem cut_le_cut_blended_self (p : ℚ) (ht : t ∈ Set.Icc 0 1) (hrest : Representable (1 - t)) :
    cut p ≤ cut (blended p p t) := by
  rcases le_or_gt p 0 with hneg | hpos
  · rw [cut_of_nonpos hneg]
    exact Nat.zero_le _
  · have hcut := cut_le p
    have hkeep := blended_self_natCast (n := cut p) (by omega) ht hrest
    calc cut p = cut (blended (cut p) (cut p) t) := by rw [hkeep, cut_natCast hcut]
      _ ≤ cut (blended p p t) := cut_mono (blended_self_mono ht (cut_le_self hpos.le))

/-- No number beyond the next double is reached. -/
theorem cut_blended_self_le (hp : Representable p) (ht : t ∈ Set.Icc 0 1)
    (hrest : Representable (1 - t)) (hq : Representable q) (h : p < q) :
    cut (blended p p t) ≤ cut q := by
  rcases le_or_gt p 0 with hneg | hpos
  · rw [cut_of_nonpos (blended_self_nonpos hneg ht)]
    exact Nat.zero_le _
  · exact cut_mono (blended_self_le hp hpos.le ht hrest hq h)

/-- Each part of a channel is a number. Their sum may be out of range. -/
theorem StandsFor.roundsTo_between_self (hx : StandsFor x p) (hr : StandsFor r t)
    (ht : t ∈ Set.Icc 0 1) : RoundsTo (Stop.between x x r) (blended p p t) := by
  have hrest := nearest_mem (n := 1) (by norm_num) (by norm_num) (one_sub_mem ht)
  have hpart : ∀ {s : ℚ}, s ∈ Set.Icc 0 1 → |nearest (p * s)| < 2 ^ (1024 : ℤ) := by
    intro s hs
    refine (abs_nearest_le hx.abs.representable ?_).trans_lt hx.abs_lt
    rw [abs_mul, abs_of_nonneg hs.1]
    exact mul_le_of_le_one_right (abs_nonneg p) hs.2
  exact (hx.mul (standsFor_one.sub hr hrest.2) (hpart hrest.1)).roundsTo_add
    (hx.mul hr (hpart ht))

/-! ## Ratios -/

theorem representable_of_mem_Icc {k : ℤ} (h : (k : ℚ) * 2 ^ (-53 : ℤ) ∈ Set.Icc 0 1) :
    Representable (k * 2 ^ (-53 : ℤ)) := by
  refine representable_mul_two_zpow ?_ (by norm_num)
  have hone : ((2 ^ 53 : ℤ) : ℚ) * 2 ^ (-53 : ℤ) = 1 := by norm_num
  have hpos := two_zpow_pos (-53)
  have hlow : 0 ≤ k := by exact_mod_cast nonneg_of_mul_nonneg_left h.1 hpos
  have hhigh : k ≤ 2 ^ 53 := by
    exact_mod_cast le_of_mul_le_mul_right (h.2.trans_eq hone.symm) hpos
  rwa [abs_of_nonneg hlow]

/-- The ratio at a place outside a row of stops has no digits below the last one that 1 has room
for. Just below zero, rounding sees to that. -/
theorem exists_nearest_fract_eq_mul (hq : Representable q) (h : q ≤ 0 ∨ 1 ≤ q) :
    ∃ k : ℤ, nearest (Int.fract q) = k * 2 ^ (-53 : ℤ) := by
  by_cases hbig : (2 : ℚ) ^ (-53 + 52 : ℤ) ≤ |q|
  · obtain ⟨m, hm⟩ := hq.exists_eq_mul (e := -53) (.inr hbig)
    have hfract : Int.fract q = (m - ⌊q⌋ * 2 ^ 53 : ℤ) * 2 ^ (-53 : ℤ) := by
      have hsub : Int.fract q = q - ⌊q⌋ := rfl
      rw [hsub]
      nth_rewrite 1 [hm]
      push_cast
      norm_num
      ring
    refine ⟨_, (congrArg nearest hfract).trans (nearest_of_representable ?_)⟩
    refine representable_of_mem_Icc ?_
    rw [← hfract]
    exact ⟨Int.fract_nonneg q, (Int.fract_lt_one q).le⟩
  · have hhalf : (2 : ℚ) ^ (-53 + 52 : ℤ) = 1 / 2 := by norm_num
    rw [not_le, hhalf, abs_lt] at hbig
    rcases (h.resolve_right (by linarith)).eq_or_lt with rfl | hneg
    · exact ⟨0, by rw [Int.fract_zero, nearest_zero, Int.cast_zero, zero_mul]⟩
    · have hfloor : ⌊q⌋ = -1 := Int.floor_eq_iff.2 ⟨by push_cast; linarith, by push_cast; linarith⟩
      have hfract : 1 / 2 ≤ Int.fract q := by
        have hsum := Int.floor_add_fract q
        rw [hfloor] at hsum
        push_cast at hsum
        linarith
      rw [← hhalf] at hfract
      have hround := le_nearest (representable_two_zpow (by norm_num)) hfract
      exact (representable_nearest _).exists_eq_mul (.inr (hround.trans (le_abs_self _)))

theorem representable_one_sub (hq : Representable q) (h : q ≤ 0 ∨ 1 ≤ q) :
    Representable (1 - nearest (Int.fract q)) := by
  obtain ⟨k, hk⟩ := exists_nearest_fract_eq_mul hq h
  have hmem := one_sub_mem (nearest_mem (n := 1) Nat.cast_one.symm (by norm_num)
    ⟨Int.fract_nonneg q, (Int.fract_lt_one q).le⟩).1
  have hrest : 1 - nearest (Int.fract q) = (2 ^ 53 - k : ℤ) * 2 ^ (-53 : ℤ) := by
    rw [hk]
    push_cast
    norm_num
    ring
  rw [hrest] at hmem ⊢
  exact representable_of_mem_Icc hmem

end Double

namespace Stop

open Double

variable {s : Stop} {c c' : Colour}

/-- The colour is the stop with its channels cut down, or some of them cut down after they have
been moved up to the next double. -/
def Near (s : Stop) (c : Colour) : Prop :=
  ∀ k : Channel, cut (value (k.ofStop s)) ≤ (k.ofColour c).toNat ∧
    ∀ q, Representable q → value (k.ofStop s) < q → (k.ofColour c).toNat ≤ cut q

theorem toNat_ofColour_truncate (hs : s.IsFinite) (k : Channel) :
    (k.ofColour s.truncate).toNat = cut (value (k.ofStop s)) := by
  rw [k.ofColour_truncate]
  exact toNat_toUInt8 (standsFor_value (hs k))

theorem near_truncate (hs : s.IsFinite) : s.Near s.truncate := fun k => by
  rw [toNat_ofColour_truncate hs]
  exact ⟨le_rfl, fun q _ hlt => cut_mono hlt.le⟩

theorem near_blend_self {ratio : Float} {t : ℚ} (hs : s.IsFinite) (hratio : StandsFor ratio t)
    (ht : t ∈ Set.Icc 0 1) (hrest : Representable (1 - t)) :
    s.Near (s.blend s ratio).truncate := fun k => by
  have hx := standsFor_value (hs k)
  have hcut : (k.ofColour (s.blend s ratio).truncate).toNat =
      cut (blended (value (k.ofStop s)) (value (k.ofStop s)) t) := by
    rw [k.ofColour_truncate, k.ofStop_blend]
    exact (hx.roundsTo_between_self hratio ht).toNat_toUInt8
  rw [hcut]
  exact ⟨cut_le_cut_blended_self _ ht hrest,
    fun q hq hlt => cut_blended_self_le hx.representable ht hrest hq hlt⟩

/-- The double below 255 comes out as 255 here. -/
example : (between 254.99999999999997 254.99999999999997 0.506).toUInt8 = 255 := by decide +kernel

/-- Nothing is added to a channel unless the next double is a whole number. -/
theorem Near.toNat_eq (h : s.Near c) {k : Channel} (hk : Settled (value (k.ofStop s))) :
    (k.ofColour c).toNat = cut (value (k.ofStop s)) := by
  obtain ⟨q, hq, hlt, hcut⟩ := hk
  exact le_antisymm (hcut ▸ (h k).2 q hq hlt) (h k).1

theorem Near.ofColour_eq (h : s.Near c) (h' : s.Near c') {k : Channel}
    (hk : Settled (value (k.ofStop s))) : k.ofColour c = k.ofColour c' := by
  rw [← UInt8.toNat_inj, h.toNat_eq hk, h'.toNat_eq hk]

theorem Near.toNat_le (h : s.Near c) (k : Channel) :
    (k.ofColour c).toNat ≤ cut (value (k.ofStop s)) + 1 := by
  rcases lt_or_ge (value (k.ofStop s)) 255 with hlt | hge
  · obtain ⟨hnext, hle⟩ := lt_cut_add_one hlt
    exact ((h k).2 _ (representable_natCast (by omega)) hnext).trans_eq (cut_natCast hle)
  · have hbyte := (k.ofColour c).toNat_lt
    rw [cut_of_le hge]
    omega

/-- Two colours near the same stop differ by one at most in each channel. -/
theorem Near.toNat_le_toNat_add_one (h : s.Near c) (h' : s.Near c') (k : Channel) :
    (k.ofColour c).toNat ≤ (k.ofColour c').toNat + 1 :=
  (h.toNat_le k).trans (Nat.add_le_add_right (h' k).1 1)

theorem value_ofStop_ofColour (c : Colour) (k : Channel) :
    value (k.ofStop (ofColour c)) = (k.ofColour c).toNat := by
  cases k <;> exact (standsFor_toFloat_uint8 _).value_eq

/-- The stop of a colour is near no other colour. -/
theorem Near.eq_of_ofColour (h : (ofColour c).Near c') : c' = c := by
  refine Channel.ext fun k => ?_
  have hbyte : (k.ofColour c).toNat ≤ 255 := Nat.le_of_lt_succ (k.ofColour c).toNat_lt
  have hvalue := value_ofStop_ofColour c k
  have hk := h.toNat_eq (hvalue ▸ settled_natCast hbyte)
  rw [hvalue, cut_natCast hbyte] at hk
  exact UInt8.toNat_inj.1 hk

end Stop

end Colourway
