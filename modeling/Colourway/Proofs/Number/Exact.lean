/-
  Small whole numbers among doubles. Up to `2^53` nothing is rounded away: sums and products of
  whole doubles are the doubles of the sums and products (`toFloat_add`, `toFloat_mul`), and a
  multiple is divided without a rest (`toFloat_mul_div`). This is said of the doubles themselves
  and not only of their numbers, so it covers the sign of zero. Greater whole numbers are rounded
  (`standsFor_toFloat_nearest`).
-/
import Colourway.Proofs.Double.NotFinite

namespace Colourway

namespace Double

open Float.Model Float.Model.UnpackedFloat

variable {x y : Float} {p : ℚ}

/-! ## The sign of zero -/

theorem StandsFor.exists_unpack_of_ne (hx : StandsFor x p) (hp : p ≠ 0) :
    ∃ s m e hm, x.toModel.unpack = .finite s m e hm ∧ signed s (m * 2 ^ e) = p := by
  have hu := hx.canonical
  have hvalue := hx.unpackedValue_eq
  generalize x.toModel.unpack = u at hu hvalue ⊢
  cases hu using Canonical.zero_or_finite with
  | zero s => exact absurd hvalue.symm hp
  | finite s m e hm => exact ⟨s, m, e, hm, rfl, hvalue⟩

theorem StandsFor.exists_unpack_of_pos (hx : StandsFor x p) (hp : 0 < p) :
    ∃ m e hm, x.toModel.unpack = .finite .positive m e hm := by
  obtain ⟨s, m, e, hm, hu, hvalue⟩ := hx.exists_unpack_of_ne hp.ne'
  have hnonneg : (0 : ℚ) ≤ m * 2 ^ e := by positivity
  cases s with
  | positive => exact ⟨m, e, hm, hu⟩
  | negative =>
    rw [signed] at hvalue
    linarith

theorem StandsFor.exists_unpack_of_neg (hx : StandsFor x p) (hp : p < 0) :
    ∃ m e hm, x.toModel.unpack = .finite .negative m e hm := by
  obtain ⟨s, m, e, hm, hu, hvalue⟩ := hx.exists_unpack_of_ne hp.ne
  have hnonneg : (0 : ℚ) ≤ m * 2 ^ e := by positivity
  cases s with
  | negative => exact ⟨m, e, hm, hu⟩
  | positive =>
    rw [signed] at hvalue
    linarith

/-- Two doubles of the same number are one, or the two zeros. -/
theorem StandsFor.eq_or (hx : StandsFor x p) (hy : StandsFor y p) : x = y ∨ p = 0 := by
  by_cases hp : p = 0
  · exact .inr hp
  · exact .inl (hx.eq hy hp)

/-! Either zero, in any computation, counts as zero. -/

theorem StandsFor.add_of_zero (hx : StandsFor x 0) (hy : StandsFor y p) : StandsFor (x + y) p := by
  have hkeep : nearest (0 + p) = p := by rw [zero_add, nearest_of_representable hy.representable]
  exact hkeep ▸ hx.add hy (hkeep.symm ▸ hy.abs_lt)

theorem StandsFor.sub_of_zero (hx : StandsFor x 0) (hy : StandsFor y p) :
    StandsFor (x - y) (-p) := by
  have hkeep : nearest (0 - p) = -p := by
    rw [zero_sub, nearest_of_representable hy.representable.neg]
  exact hkeep ▸ hx.sub hy (hkeep.symm ▸ hy.neg.abs_lt)

theorem StandsFor.mul_of_zero (hx : StandsFor x 0) (hy : StandsFor y p) : StandsFor (x * y) 0 := by
  have hkeep : nearest (0 * p) = 0 := by rw [zero_mul, nearest_zero]
  exact hkeep ▸ hx.mul hy (hkeep.symm ▸ standsFor_zero.abs_lt)

theorem StandsFor.div_of_zero (hx : StandsFor x 0) (hy : StandsFor y p) (hp : p ≠ 0) :
    StandsFor (x / y) 0 := by
  have hkeep : nearest (0 / p) = 0 := by rw [zero_div, nearest_zero]
  exact hkeep ▸ hx.div hy hp (hkeep.symm ▸ standsFor_zero.abs_lt)

/-- One changes nothing, not even the sign of zero. -/
theorem StandsFor.mul_one_eq (hx : StandsFor x p) : x * 1 = x := by
  by_cases hp : p = 0
  · subst hp
    obtain ⟨s, hs⟩ := hx.exists_unpack_eq_zero
    obtain ⟨m, e, hm, hone⟩ := standsFor_one.exists_unpack_of_pos one_pos
    have hmul : x * 1 = .ofModel (.pack (UnpackedFloat.mul .binary64 x.toModel.unpack
      (1 : Float).toModel.unpack)) := rfl
    rw [hmul, hone, hs, eq_pack_unpack x, hs]
    cases s <;> rfl
  · have hkeep : nearest (p * 1) = p := by rw [mul_one, nearest_of_representable hx.representable]
    have hmul := hx.mul standsFor_one (hkeep.symm ▸ hx.abs_lt)
    rw [hkeep] at hmul
    exact hmul.eq hx hp

theorem StandsFor.zero_mul_eq_zero (hx : StandsFor x p) (hp : 0 < p) : 0 * x = 0 := by
  obtain ⟨m, e, hm, hu⟩ := hx.exists_unpack_of_pos hp
  have hmul : 0 * x =
      .ofModel (.pack (UnpackedFloat.mul .binary64 (.zero .positive) x.toModel.unpack)) := rfl
  rw [hmul, hu]
  rfl

theorem StandsFor.mul_zero_eq_zero (hx : StandsFor x p) (hp : 0 < p) : x * 0 = 0 := by
  obtain ⟨m, e, hm, hu⟩ := hx.exists_unpack_of_pos hp
  have hmul : x * 0 =
      .ofModel (.pack (UnpackedFloat.mul .binary64 x.toModel.unpack (.zero .positive))) := rfl
  rw [hmul, hu]
  rfl

theorem StandsFor.zero_div_eq_zero (hx : StandsFor x p) (hp : 0 < p) : 0 / x = 0 := by
  obtain ⟨m, e, hm, hu⟩ := hx.exists_unpack_of_pos hp
  have hdiv : 0 / x =
      .ofModel (.pack (UnpackedFloat.div .binary64 (.zero .positive) x.toModel.unpack)) := rfl
  rw [hdiv, hu]
  rfl

end Double

open Double

/-- A whole number of any size there is, rounded. -/
theorem standsFor_toFloat_nearest {n : ℕ} (hn : n < 2 ^ 64) :
    StandsFor (Whole.toFloat n) (nearest n) := by
  have htoNat : n.toUInt64.toNat = n := UInt64.toNat_ofNat_of_lt' hn
  have hfloat : Whole.toFloat n = .ofModel (.pack
      (Float.Model.UnpackedFloat.normalize .binary64 n.toUInt64.toNat 0 .positive)) := rfl
  obtain ⟨hvalue, hcanon⟩ := normalize_eq n 0 .positive
  rw [zpow_zero, mul_one, Int.cast_natCast] at hvalue
  have hle : (n : ℚ) ≤ 2 ^ (64 : ℤ) := by exact_mod_cast hn.le
  have habs : |nearest n| ≤ 2 ^ (64 : ℤ) :=
    abs_nearest_le (representable_two_zpow (by norm_num)) (by rwa [Nat.abs_cast])
  rw [hfloat, htoNat]
  refine hvalue ▸ standsFor_pack hcanon ?_
  rw [hvalue]
  exact habs.trans_lt (zpow_lt_zpow_right₀ one_lt_two (by norm_num))

theorem nearest_natCast_pos {n : ℕ} (hn : 0 < n) : 0 < nearest n :=
  one_pos.trans_le (le_nearest representable_one (Nat.one_le_cast.2 hn))

theorem toFloat_uint8 (b : UInt8) : b.toFloat = Whole.toFloat b.toNat := by
  by_cases h : b = 0
  · rw [h]
    rfl
  · have hne : (b.toNat : ℚ) ≠ 0 := Nat.cast_ne_zero.2 fun h0 => h (UInt8.toNat_inj.1 h0)
    have hlt := b.toNat_lt
    exact (standsFor_toFloat_uint8 b).eq (standsFor_toFloat (by omega)) hne

namespace Whole

theorem toFloat_zero : toFloat 0 = 0 := rfl

variable {a b : ℕ}

theorem toFloat_add (h : a + b ≤ 2 ^ 53) : toFloat a + toFloat b = toFloat (a + b) := by
  by_cases hzero : a + b = 0
  · obtain ⟨rfl, rfl⟩ := Nat.add_eq_zero_iff.1 hzero
    rfl
  · have ha := standsFor_toFloat (n := a) (by omega)
    have hb := standsFor_toFloat (n := b) (by omega)
    have hsum := standsFor_toFloat h
    rw [Nat.cast_add] at hsum
    have hkeep := nearest_of_representable hsum.representable
    have hadd := ha.add hb (hkeep.symm ▸ hsum.abs_lt)
    rw [hkeep] at hadd
    exact hadd.eq hsum (by exact_mod_cast hzero)

theorem toFloat_mul (ha : a ≤ 2 ^ 53) (hb : b ≤ 2 ^ 53) (h : a * b ≤ 2 ^ 53) :
    toFloat a * toFloat b = toFloat (a * b) := by
  have hsa := standsFor_toFloat ha
  have hsb := standsFor_toFloat hb
  rcases Nat.eq_zero_or_pos a with rfl | hapos
  · rcases Nat.eq_zero_or_pos b with rfl | hbpos
    · rfl
    · rw [Nat.zero_mul, toFloat_zero]
      exact hsb.zero_mul_eq_zero (Nat.cast_pos.2 hbpos)
  · rcases Nat.eq_zero_or_pos b with rfl | hbpos
    · rw [Nat.mul_zero, toFloat_zero]
      exact hsa.mul_zero_eq_zero (Nat.cast_pos.2 hapos)
    · have hprod := standsFor_toFloat h
      rw [Nat.cast_mul] at hprod
      have hkeep := nearest_of_representable hprod.representable
      have hmul := hsa.mul hsb (hkeep.symm ▸ hprod.abs_lt)
      rw [hkeep] at hmul
      exact hmul.eq hprod (by positivity)

/-- A multiple is divided without a rest. -/
theorem toFloat_mul_div (hb : 0 < b) (hb' : b ≤ 2 ^ 53) (h : a * b ≤ 2 ^ 53) :
    toFloat (a * b) / toFloat b = toFloat a := by
  have hsb := standsFor_toFloat hb'
  have hbpos : (0 : ℚ) < b := Nat.cast_pos.2 hb
  rcases Nat.eq_zero_or_pos a with rfl | hapos
  · rw [Nat.zero_mul, toFloat_zero]
    exact hsb.zero_div_eq_zero hbpos
  · have ha := standsFor_toFloat ((Nat.le_mul_of_pos_right a hb).trans h)
    have hquot : ((a * b : ℕ) : ℚ) / b = a := by
      rw [Nat.cast_mul, mul_div_cancel_right₀ _ hbpos.ne']
    have hkeep := nearest_of_representable ha.representable
    have hdiv := (standsFor_toFloat h).div hsb hbpos.ne'
      (by rw [hquot, hkeep]; exact ha.abs_lt)
    rw [hquot, hkeep] at hdiv
    exact hdiv.eq ha (Nat.cast_ne_zero.2 hapos.ne')

/-- Rounded or not, a whole number over itself is one. -/
theorem toFloat_div_self {n : ℕ} (hn : 0 < n) (hlt : n < 2 ^ 64) :
    toFloat n / toFloat n = 1 := by
  have hfloat := standsFor_toFloat_nearest hlt
  have hkeep : nearest (nearest n / nearest n) = 1 := by
    rw [div_self (nearest_natCast_pos hn).ne', nearest_of_representable representable_one]
  have hdiv := hfloat.div hfloat (nearest_natCast_pos hn).ne' (hkeep.symm ▸ standsFor_one.abs_lt)
  rw [hkeep] at hdiv
  exact hdiv.eq standsFor_one one_ne_zero

end Whole

end Colourway
