/-
  Whole numbers and doubles, told by the numbers that doubles stand for. Small whole numbers
  are kept exactly (`standsFor_toFloat`). Cutting a double off gives the whole part of its
  number, held to the range there is (`toNat_toUInt8`, `StandsFor.ofFloat_eq`); rounding it down
  is exact (`StandsFor.floor`), for a double that is not small enough to have a fraction is
  whole already.
-/
import Colourway.Number.Whole
import Colourway.Proofs.Double.Arithmetic

namespace Colourway.Double

open Float.Model Float.Model.UnpackedFloat

variable {x : Float} {p : ℚ}

/-! ## From whole numbers -/

theorem abs_intCast_lt {n : ℤ} (hn : |n| ≤ 2 ^ 53) : |(n : ℚ)| < 2 ^ (1024 : ℤ) := by
  have habs : |(n : ℚ)| ≤ 2 ^ (53 : ℤ) := by exact_mod_cast hn
  exact habs.trans_lt (zpow_lt_zpow_right₀ one_lt_two (by norm_num))

theorem standsFor_normalize {n : ℕ} (hn : n ≤ 2 ^ 53) :
    StandsFor (.ofModel (.pack (UnpackedFloat.normalize .binary64 n 0 .positive))) n := by
  obtain ⟨hvalue, hcanon⟩ := normalize_eq n 0 .positive
  have hint : |(n : ℤ)| ≤ 2 ^ 53 := by
    rw [Nat.abs_cast]
    exact_mod_cast hn
  rw [zpow_zero, mul_one, nearest_of_representable (representable_intCast hint),
    Int.cast_natCast] at hvalue
  refine hvalue ▸ standsFor_pack hcanon ?_
  rw [hvalue]
  exact abs_intCast_lt hint

theorem standsFor_toFloat_uint8 (n : UInt8) : StandsFor n.toFloat n.toNat := by
  have hn := n.toNat_lt
  exact standsFor_normalize (by omega)

theorem standsFor_toFloat {n : ℕ} (hn : n ≤ 2 ^ 53) : StandsFor (Whole.toFloat n) n := by
  have hsize : UInt64.size = 2 ^ 64 := rfl
  have htoNat : n.toUInt64.toNat = n := UInt64.toNat_ofNat_of_lt' (by omega)
  have hfloat : Whole.toFloat n =
      .ofModel (.pack (UnpackedFloat.normalize .binary64 n.toUInt64.toNat 0 .positive)) := rfl
  rw [hfloat, htoNat]
  exact standsFor_normalize hn

theorem standsFor_zero : StandsFor 0 0 := by
  have h : (0 : Float) = Whole.toFloat 0 := rfl
  rw [h]
  exact_mod_cast standsFor_toFloat (n := 0) (by norm_num)

/-- What is equal to a finite double stands for the same number. -/
theorem StandsFor.of_beq {y : Float} (h : (x == y) = true) (hy : StandsFor y p) :
    StandsFor x p := by
  have hneg : StandsFor (-0) 0 := neg_zero (G := ℚ) ▸ standsFor_zero.neg
  obtain ⟨-, -, rfl | ⟨rfl, rfl⟩ | ⟨rfl, rfl⟩⟩ := Float.beq_iff_ne_nan_and_eq.1 h
  · exact hy
  · rw [← hy.value_eq, hneg.value_eq]
    exact standsFor_zero
  · rw [← hy.value_eq, standsFor_zero.value_eq]
    exact hneg

/-- There is only one double for a number other than zero. -/
theorem StandsFor.eq {y : Float} (hx : StandsFor x p) (hy : StandsFor y p) (hp : p ≠ 0) :
    x = y := by
  obtain ⟨-, -, h | ⟨rfl, -⟩ | ⟨-, rfl⟩⟩ := Float.beq_iff_ne_nan_and_eq.1 ((hx.beq_iff hy).2 rfl)
  · exact h
  · exact absurd (hx.value_eq.symm.trans standsFor_zero.value_eq) hp
  · exact absurd (hy.value_eq.symm.trans standsFor_zero.value_eq) hp

theorem standsFor_one : StandsFor 1 1 := by
  have h : (1 : Float) = Whole.toFloat 1 := rfl
  rw [h]
  exact_mod_cast standsFor_toFloat (n := 1) (by norm_num)

theorem standsFor_exactFrom : StandsFor Whole.exactFrom (2 ^ 52) := by
  have h : Whole.exactFrom = Whole.toFloat (2 ^ 52) := by decide +kernel
  rw [h]
  exact_mod_cast standsFor_toFloat (n := 2 ^ 52) (by norm_num)

/-! ## To whole numbers -/

theorem roundToInt_eq (s : Sign) (m : ℕ) (e : ℤ) :
    roundToInt s m e = s.apply ⌊(m : ℚ) * 2 ^ e⌋ := by
  have hdesc := (describes_natCast (m <<< e.toNat)).shiftRight (0 - (e - e.toNat)).toNat
  have hvalue : ((m <<< e.toNat : ℕ) : ℚ) / 2 ^ (0 - (e - e.toNat)).toNat = m * 2 ^ e := by
    rw [Nat.shiftLeft_eq]
    rcases le_total 0 e with he | he
    · have h0 : (0 - (e - e.toNat)).toNat = 0 := by omega
      rw [h0, pow_zero, div_one]
      obtain ⟨k, rfl⟩ := Int.eq_ofNat_of_zero_le he
      push_cast
      simp
    · have h0 : e.toNat = 0 := by omega
      obtain ⟨k, rfl⟩ : ∃ k : ℕ, e = -k := ⟨(-e).toNat, by omega⟩
      simp [h0, div_eq_mul_inv]
  rw [hvalue] at hdesc
  rw [hdesc.floor_eq]
  simp only [roundToInt, decreaseExponent, shiftToExponent, sub_zero]
  rfl

/-- The whole part of a double; what is below zero counts as nothing. -/
theorem toNat_toInt (hx : StandsFor x p) (low high : ℤ) :
    (x.toModel.unpack.toInt low high).toNat = ⌊p⌋.toNat := by
  have hu := hx.canonical
  rw [← hx.unpackedValue_eq]
  generalize x.toModel.unpack = u at hu ⊢
  cases hu using Canonical.zero_or_finite with
  | zero s => simp [UnpackedFloat.toInt, unpackedValue]
  | finite s m e hm =>
    rw [ UnpackedFloat.toInt, roundToInt_eq, unpackedValue]
    have hnonneg : (0 : ℚ) ≤ m * 2 ^ e := by positivity
    cases s with
    | positive => rfl
    | negative =>
      have hfloor : 0 ≤ ⌊(m : ℚ) * 2 ^ e⌋ := Int.floor_nonneg.2 hnonneg
      have hneg : ⌊-((m : ℚ) * 2 ^ e)⌋ ≤ 0 := Int.floor_nonpos (neg_nonpos.2 hnonneg)
      rw [signed, Int.toNat_of_nonpos hneg]
      exact Int.toNat_of_nonpos (neg_nonpos.2 hfloor)

theorem toNat_toUInt8 (hx : StandsFor x p) : x.toUInt8.toNat = min ⌊p⌋.toNat 255 := by
  have h : x.toUInt8 = .ofNatClamp (x.toModel.unpack.toInt 0 (UInt8.size - 1)).toNat := rfl
  have hsize : UInt8.size = 256 := rfl
  rw [h, toNat_toInt hx, UInt8.ofNatClamp]
  split
  case isTrue hlt => rw [UInt8.toNat_ofNatLT]; omega
  case isFalse hge => rw [UInt8.toNat_ofNatLT]; omega

theorem toNat_toUInt64 (hx : StandsFor x p) :
    x.toUInt64.toNat = min ⌊p⌋.toNat (2 ^ 64 - 1) := by
  have h : x.toUInt64 = .ofNatClamp (x.toModel.unpack.toInt 0 (UInt64.size - 1)).toNat := rfl
  have hsize : UInt64.size = 2 ^ 64 := rfl
  rw [h, toNat_toInt hx, UInt64.ofNatClamp]
  split
  case isTrue hlt => rw [UInt64.toNat_ofNatLT]; omega
  case isFalse hge => rw [UInt64.toNat_ofNatLT]; omega

/-! ## Rounding down -/

/-- A representable number that is not small has no fraction. -/
theorem floor_eq_self {q : ℚ} (hq : Representable q) (hbig : 2 ^ 52 ≤ |q|) : (⌊q⌋ : ℚ) = q := by
  have hbig' : (2 : ℚ) ^ ((0 : ℤ) + 52) ≤ |q| := by
    rw [zero_add]
    exact_mod_cast hbig
  obtain ⟨n, hn⟩ := hq.exists_eq_mul (.inr hbig')
  rw [zpow_zero, mul_one] at hn
  rw [hn, Int.floor_intCast]

/-- The double without its fraction and its sign. -/
theorem StandsFor.magnitude (hx : StandsFor x p) (hsmall : |p| < 2 ^ 52) :
    StandsFor (Whole.magnitude x) ⌊|p|⌋ := by
  have hfloor : 0 ≤ ⌊|p|⌋ := Int.floor_nonneg.2 (abs_nonneg p)
  have hlt : ⌊|p|⌋ < 2 ^ 52 := Int.floor_lt.2 (by exact_mod_cast hsmall)
  have htoNat : x.abs.toUInt64.toNat = ⌊|p|⌋.toNat := by
    rw [toNat_toUInt64 hx.abs]
    omega
  have h := standsFor_toFloat (n := x.abs.toUInt64.toNat) (by omega)
  have hcast : ((x.abs.toUInt64.toNat : ℕ) : ℚ) = ⌊|p|⌋ := by
    rw [htoNat]
    exact_mod_cast Int.toNat_of_nonneg hfloor
  rw [hcast] at h
  have hfloat : Whole.toFloat x.abs.toUInt64.toNat = Whole.magnitude x := by
    rw [Whole.toFloat, Nat.toUInt64, UInt64.ofNat_toNat]
    rfl
  rwa [hfloat] at h

/-- Below zero, a fraction is rounded away from zero. -/
theorem floor_of_neg {q : ℚ} (hq : q < 0) (hne : (⌊|q|⌋ : ℚ) ≠ |q|) : ⌊q⌋ = -(⌊|q|⌋ + 1) := by
  have hle := lt_of_le_of_ne (Int.floor_le |q|) hne
  have hlt := Int.lt_floor_add_one |q|
  have habs := abs_of_neg hq
  rw [Int.floor_eq_iff]
  push_cast
  constructor <;> linarith

theorem StandsFor.floor (hx : StandsFor x p) : StandsFor (Whole.floor x) ⌊p⌋ := by
  have hsmall := hx.abs.lt_iff standsFor_exactFrom
  unfold Whole.floor
  split_ifs with hlt heq hneg
  · -- no fraction to drop
    have hmag := hx.magnitude (hsmall.1 hlt)
    have habs : (⌊|p|⌋ : ℚ) = |p| := (hmag.beq_iff hx.abs).1 heq
    have hp : (⌊p⌋ : ℚ) = p := by
      rcases abs_choice p with h | h
      · rwa [h] at habs
      · rw [h] at habs
        have hint : p = ((-⌊-p⌋ : ℤ) : ℚ) := by
          push_cast
          linarith
        rw [hint, Int.floor_intCast]
    rwa [hp]
  · -- a fraction below zero
    have hmag := hx.magnitude (hsmall.1 hlt)
    have hp : p < 0 := (hx.lt_iff standsFor_zero).1 hneg
    have hne : (⌊|p|⌋ : ℚ) ≠ |p| := fun h => heq ((hmag.beq_iff hx.abs).2 h)
    have hlow : 0 ≤ ⌊|p|⌋ := Int.floor_nonneg.2 (abs_nonneg p)
    have hhigh : ⌊|p|⌋ < 2 ^ 52 := Int.floor_lt.2 (by exact_mod_cast hsmall.1 hlt)
    have hint : |⌊|p|⌋ + 1| ≤ 2 ^ 53 := by
      rw [abs_of_nonneg (by omega)]
      omega
    have hnearest : nearest ((⌊|p|⌋ : ℚ) + 1) = (⌊|p|⌋ + 1 : ℤ) := by
      rw [← Int.cast_one, ← Int.cast_add, nearest_of_representable (representable_intCast hint)]
    have hadd := hmag.add standsFor_one (hnearest ▸ abs_intCast_lt hint)
    rw [hnearest] at hadd
    rw [floor_of_neg hp hne, Int.cast_neg]
    exact hadd.neg
  · have hmag := hx.magnitude (hsmall.1 hlt)
    have hp : 0 ≤ p := not_lt.1 fun h => hneg ((hx.lt_iff standsFor_zero).2 h)
    rwa [abs_of_nonneg hp] at hmag
  · have hbig : 2 ^ 52 ≤ |p| := not_lt.1 fun h => hlt (hsmall.2 h)
    rwa [floor_eq_self hx.representable hbig]

/-- A whole double, held to the range of whole numbers. -/
theorem StandsFor.ofFloat_eq {n : ℤ} (hx : StandsFor x n) :
    Whole.ofFloat x = max Whole.least (min n Whole.greatest) := by
  unfold Whole.ofFloat Whole.least Whole.greatest
  have hneg := hx.lt_iff standsFor_zero
  have habs : ⌊|(n : ℚ)|⌋ = |n| := by
    rw [← Int.cast_abs, Int.floor_intCast]
  split_ifs with hlt
  · have hn : n < 0 := by exact_mod_cast hneg.1 hlt
    rw [toNat_toUInt64 hx.abs, habs, abs_of_neg hn]
    omega
  · have hn : 0 ≤ n := by
      by_contra h
      exact hlt (hneg.2 (by exact_mod_cast not_le.1 h))
    rw [toNat_toUInt64 hx, Int.floor_intCast]
    omega

end Colourway.Double
