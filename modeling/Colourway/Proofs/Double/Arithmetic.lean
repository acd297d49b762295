/-
  Arithmetic on doubles: the outcome of every operation is the exact result of the operation
  on the numbers, rounded to the nearest representable number, as long as this is not too
  large (`StandsFor.add`, `StandsFor.sub`, `StandsFor.mul`, `StandsFor.div`). Changing the sign
  rounds nothing (`StandsFor.neg`, `StandsFor.abs`). A difference that is finite had a finite
  first operand (`isFinite_of_sub`).
-/
import Colourway.Proofs.Double.Value

namespace Colourway.Double

open Float.Model Float.Model.UnpackedFloat

/-! ## Signs -/

theorem signed_neg (s : Sign) (q : ℚ) : signed (-s) q = -signed s q := by
  cases s with
  | negative => exact (neg_neg q).symm
  | positive => rfl

theorem signed_mul (s t : Sign) (p q : ℚ) : signed (s * t) (p * q) = signed s p * signed t q := by
  cases s <;> cases t
  · exact (neg_mul_neg p q).symm
  · exact (neg_mul p q).symm
  · exact (mul_neg p q).symm
  · rfl

theorem signed_div (s t : Sign) (p q : ℚ) : signed (s / t) (p / q) = signed s p / signed t q := by
  cases s <;> cases t
  · exact (neg_div_neg_eq p q).symm
  · exact (neg_div q p).symm
  · exact (div_neg p).symm
  · rfl

theorem nearest_signed (s : Sign) (q : ℚ) : nearest (signed s q) = signed s (nearest q) := by
  cases s with
  | negative => exact nearest_neg q
  | positive => rfl

theorem cast_apply (s : Sign) (n : ℤ) : (s.apply n : ℚ) = signed s n := by
  cases s with
  | negative => exact Int.cast_neg n
  | positive => rfl

theorem unpackedValue_neg (u : UnpackedFloat) : unpackedValue u.neg = -unpackedValue u := by
  cases u with
  | finite s m e hm => exact signed_neg s _
  | _ => exact neg_zero.symm

theorem Canonical.neg {u : UnpackedFloat} (hu : Canonical u) : Canonical u.neg := by
  cases hu using Canonical.zero_or_finite with
  | zero s => trivial
  | finite s m e hm hu => exact hu

theorem Canonical.nearest_eq {u : UnpackedFloat} (hu : Canonical u) :
    nearest (unpackedValue u) = unpackedValue u :=
  nearest_of_representable hu.representable

/-! ## Unpacked operations -/

variable {u v : UnpackedFloat}

theorem decreaseExponent_value (m : ℕ) {e t : ℤ} (h : t ≤ e) :
    ((decreaseExponent m e t).1 : ℚ) * 2 ^ t = m * 2 ^ e := by
  obtain ⟨k, rfl⟩ := Int.le.dest h
  have hk : (t + k - t).toNat = k := by omega
  simp only [decreaseExponent, hk, Nat.shiftLeft_eq]
  rw [zpow_add₀ (by norm_num), zpow_natCast]
  push_cast
  ring

theorem add_unpacked (hu : Canonical u) (hv : Canonical v) :
    unpackedValue (UnpackedFloat.add .binary64 u v) =
        nearest (unpackedValue u + unpackedValue v) ∧
      Canonical (UnpackedFloat.add .binary64 u v) := by
  cases hu using Canonical.zero_or_finite with
  | zero s =>
    have hzero : unpackedValue (.zero s) + unpackedValue v = unpackedValue v := zero_add _
    rw [hzero, hv.nearest_eq]
    cases hv using Canonical.zero_or_finite with
    | zero t => cases s <;> cases t <;> exact ⟨rfl, trivial⟩
    | finite t n f hn hv => exact ⟨rfl, hv⟩
  | finite s m e hm hu =>
    cases hv using Canonical.zero_or_finite with
    | zero t =>
      have hzero : unpackedValue (.finite s m e hm) + unpackedValue (.zero t) =
        unpackedValue (.finite s m e hm) := add_zero _
      rw [hzero, hu.nearest_eq]
      exact ⟨rfl, hu⟩
    | finite t n f hn hv =>
      have hleft := decreaseExponent_value m (min_le_left e f)
      have hright := decreaseExponent_value n (min_le_right e f)
      have hsum : ((s.apply (decreaseExponent m e (min e f)).1 +
          t.apply (decreaseExponent n f (min e f)).1 : ℤ) : ℚ) * 2 ^ min e f =
          unpackedValue (.finite s m e hm) + unpackedValue (.finite t n f hn) := by
        rw [unpackedValue, unpackedValue, ← hleft, ← hright, Int.cast_add, cast_apply, cast_apply,
          add_mul]
        cases s <;> cases t <;> simp [signed]
      rw [← hsum]
      exact normalize_eq _ _ _

/-- Subtracting is adding with the sign changed. -/
theorem unpacked_sub_eq (u v : UnpackedFloat) :
    UnpackedFloat.sub .binary64 u v = UnpackedFloat.add .binary64 u v.neg := by
  have hsign : ∀ s : Sign, -(-s) = s := fun s => by cases s <;> rfl
  have happly : ∀ (s : Sign) (n : ℤ), (-s).apply n = -s.apply n := fun s n => by
    cases s with
    | negative => exact (neg_neg n).symm
    | positive => rfl
  cases u <;> cases v <;>
    simp only [UnpackedFloat.sub, UnpackedFloat.add, UnpackedFloat.neg, happly, Int.sub_eq_add_neg]

theorem sub_unpacked (hu : Canonical u) (hv : Canonical v) :
    unpackedValue (UnpackedFloat.sub .binary64 u v) =
        nearest (unpackedValue u - unpackedValue v) ∧
      Canonical (UnpackedFloat.sub .binary64 u v) := by
  have h := add_unpacked hu hv.neg
  rwa [← unpacked_sub_eq, unpackedValue_neg, ← sub_eq_add_neg] at h

theorem log2_add_le_log2_mul {m n : ℕ} (hm : 0 < m) (hn : 0 < n) :
    m.log2 + n.log2 ≤ (m * n).log2 := by
  rw [Nat.le_log2 (Nat.mul_pos hm hn).ne', pow_add]
  exact Nat.mul_le_mul (Nat.log2_self_le hm.ne') (Nat.log2_self_le hn.ne')

theorem mul_unpacked (hu : Canonical u) (hv : Canonical v) :
    unpackedValue (UnpackedFloat.mul .binary64 u v) =
        nearest (unpackedValue u * unpackedValue v) ∧
      Canonical (UnpackedFloat.mul .binary64 u v) := by
  cases hu using Canonical.zero_or_finite with
  | zero s =>
    have hzero : unpackedValue (.zero s) * unpackedValue v = 0 := zero_mul _
    rw [hzero, nearest_zero]
    cases hv using Canonical.zero_or_finite with
    | zero t => exact ⟨rfl, trivial⟩
    | finite t n f hn => exact ⟨rfl, trivial⟩
  | finite s m e hm hu =>
    cases hv using Canonical.zero_or_finite with
    | zero t =>
      have hzero : unpackedValue (.finite s m e hm) * unpackedValue (.zero t) = 0 := mul_zero _
      rw [hzero, nearest_zero]
      exact ⟨rfl, trivial⟩
    | finite t n f hn hv =>
      have hlog := log2_add_le_log2_mul hm hn
      have hplace : e + f ≤ max ((m * n).log2 + (e + f) - 52 : ℤ) (-1074) := by
        rcases hu.2.2 with hm52 | he
        · have h52 := log2_eq_of_full hm52 hu.1
          omega
        · rcases hv.2.2 with hn52 | hf
          · have h52 := log2_eq_of_full hn52 hv.1
            omega
          · omega
      have hround := roundWithAccuracy_natCast (s * t) (Nat.mul_pos hm hn) hplace
      have hprod : ((m * n : ℕ) : ℚ) * 2 ^ (e + f) = m * 2 ^ e * (n * 2 ^ f) := by
        rw [zpow_add₀ (by norm_num)]
        push_cast
        ring
      rwa [hprod, ← nearest_signed, signed_mul] at hround

/-- The quotient of two mantissas has digits enough to be rounded. -/
theorem two_pow_le_shiftLeft_div {m n k : ℕ} (hm : 0 < m) (hn : 0 < n)
    (hk : n.log2 + 53 ≤ m.log2 + k) : 2 ^ 52 ≤ (m <<< k) / n := by
  rw [Nat.le_div_iff_mul_le hn, Nat.shiftLeft_eq]
  calc 2 ^ 52 * n ≤ 2 ^ 52 * 2 ^ (n.log2 + 1) := Nat.mul_le_mul_left _ Nat.lt_log2_self.le
    _ = 2 ^ (n.log2 + 53) := by rw [← pow_add]; congr 1; omega
    _ ≤ 2 ^ (m.log2 + k) := Nat.pow_le_pow_right two_pos hk
    _ = 2 ^ m.log2 * 2 ^ k := pow_add _ _ _
    _ ≤ m * 2 ^ k := Nat.mul_le_mul_right _ (Nat.log2_self_le hm.ne')

theorem shiftLeft_div_mul_two_zpow {m n k : ℕ} {e f place : ℤ} (he : e = place + k + f) :
    ((m <<< k : ℕ) : ℚ) / n * 2 ^ place = m * 2 ^ e / (n * 2 ^ f) := by
  have hf := (two_zpow_pos f).ne'
  rw [Nat.shiftLeft_eq, he, zpow_add₀ (by norm_num), zpow_add₀ (by norm_num), zpow_natCast]
  push_cast
  field_simp

theorem div_unpacked (hu : Canonical u) (hv : Canonical v) (hv0 : unpackedValue v ≠ 0) :
    unpackedValue (UnpackedFloat.div .binary64 u v) =
        nearest (unpackedValue u / unpackedValue v) ∧
      Canonical (UnpackedFloat.div .binary64 u v) := by
  cases hv using Canonical.zero_or_finite with
  | zero t => exact absurd rfl hv0
  | finite t n f hn hv =>
    cases hu using Canonical.zero_or_finite with
    | zero s =>
      have hzero : unpackedValue (.zero s) / unpackedValue (.finite t n f hn) = 0 := zero_div _
      rw [hzero, nearest_zero]
      exact ⟨rfl, trivial⟩
    | finite s m e hm hu =>
      obtain ⟨place, hplace⟩ : ∃ place, place = min (e - f)
        (Format.binary64.targetExponent (totalExponent m e - totalExponent n f)) := ⟨_, rfl⟩
      obtain ⟨k, hk⟩ : ∃ k, k = (e - f - place).toNat := ⟨_, rfl⟩
      have hdiv : UnpackedFloat.div .binary64 (.finite s m e hm) (.finite t n f hn) =
          roundWithAccuracy .binary64 (s / t) (m <<< k / n) place
            (accuracyOfFraction (m <<< k % n) n) := by
        rw [hk, hplace]
        rfl
      rw [targetExponent_binary64, totalExponent, totalExponent] at hplace
      have hfull : place ≤ max ((m <<< k / n).log2 + place - 52 : ℤ) (-1074) := by
        by_cases hmin : place ≤ -1074
        · exact le_max_of_le_right hmin
        · have h52 := two_pow_le_shiftLeft_div hm hn (k := k) (by omega)
          have hlog : 52 ≤ (m <<< k / n).log2 := (Nat.le_log2 (by omega)).2 h52
          omega
      have hpos : 0 < m <<< k := by
        rw [Nat.shiftLeft_eq]
        positivity
      have hround := roundWithAccuracy_quotient (s / t) hpos hn hfull
      rwa [← hdiv, shiftLeft_div_mul_two_zpow (by omega : e = place + k + f), ← nearest_signed,
        signed_div] at hround

theorem abs_unpacked (hu : Canonical u) :
    unpackedValue u.abs = |unpackedValue u| ∧ Canonical u.abs := by
  cases hu using Canonical.zero_or_finite with
  | zero s => exact ⟨abs_zero.symm, trivial⟩
  | finite s m e hm hu =>
    have hnonneg : (0 : ℚ) ≤ m * 2 ^ e := by positivity
    exact ⟨(abs_signed hnonneg s).symm, hu⟩

/-! ## Doubles -/

variable {x y : Float} {p q : ℚ}

theorem StandsFor.add (hx : StandsFor x p) (hy : StandsFor y q)
    (h : |nearest (p + q)| < 2 ^ (1024 : ℤ)) : StandsFor (x + y) (nearest (p + q)) := by
  obtain ⟨hvalue, hcanon⟩ := add_unpacked hx.canonical hy.canonical
  rw [hx.unpackedValue_eq, hy.unpackedValue_eq] at hvalue
  exact hvalue ▸ standsFor_pack hcanon (hvalue ▸ h)

theorem StandsFor.sub (hx : StandsFor x p) (hy : StandsFor y q)
    (h : |nearest (p - q)| < 2 ^ (1024 : ℤ)) : StandsFor (x - y) (nearest (p - q)) := by
  obtain ⟨hvalue, hcanon⟩ := sub_unpacked hx.canonical hy.canonical
  rw [hx.unpackedValue_eq, hy.unpackedValue_eq] at hvalue
  exact hvalue ▸ standsFor_pack hcanon (hvalue ▸ h)

theorem StandsFor.mul (hx : StandsFor x p) (hy : StandsFor y q)
    (h : |nearest (p * q)| < 2 ^ (1024 : ℤ)) : StandsFor (x * y) (nearest (p * q)) := by
  obtain ⟨hvalue, hcanon⟩ := mul_unpacked hx.canonical hy.canonical
  rw [hx.unpackedValue_eq, hy.unpackedValue_eq] at hvalue
  exact hvalue ▸ standsFor_pack hcanon (hvalue ▸ h)

theorem StandsFor.div (hx : StandsFor x p) (hy : StandsFor y q) (hq : q ≠ 0)
    (h : |nearest (p / q)| < 2 ^ (1024 : ℤ)) : StandsFor (x / y) (nearest (p / q)) := by
  obtain ⟨hvalue, hcanon⟩ :=
    div_unpacked hx.canonical hy.canonical (hy.unpackedValue_eq ▸ hq)
  rw [hx.unpackedValue_eq, hy.unpackedValue_eq] at hvalue
  exact hvalue ▸ standsFor_pack hcanon (hvalue ▸ h)

/-- The same, known from the outcome. -/
theorem StandsFor.add_of_isFinite (hx : StandsFor x p) (hy : StandsFor y q)
    (h : (x + y).isFinite = true) : StandsFor (x + y) (nearest (p + q)) := by
  obtain ⟨hvalue, hcanon⟩ := add_unpacked hx.canonical hy.canonical
  rw [hx.unpackedValue_eq, hy.unpackedValue_eq] at hvalue
  exact hvalue ▸ standsFor_pack_of_isFinite hcanon h

theorem StandsFor.sub_of_isFinite (hx : StandsFor x p) (hy : StandsFor y q)
    (h : (x - y).isFinite = true) : StandsFor (x - y) (nearest (p - q)) := by
  obtain ⟨hvalue, hcanon⟩ := sub_unpacked hx.canonical hy.canonical
  rw [hx.unpackedValue_eq, hy.unpackedValue_eq] at hvalue
  exact hvalue ▸ standsFor_pack_of_isFinite hcanon h

theorem isFinite_of_sub (h : (x - y).isFinite = true) : x.isFinite = true := by
  have hsub : (UnpackedFloat.sub .binary64 x.toModel.unpack y.toModel.unpack).isFinite = true :=
    isFinite_of_pack h
  have hgoal : x.isFinite = x.toModel.unpack.isFinite := rfl
  rw [hgoal]
  cases hx : x.toModel.unpack with
  | notANumber => rw [hx] at hsub; exact hsub
  | infinity s =>
    rw [hx] at hsub
    cases hy : y.toModel.unpack with
    | infinity t => rw [hy] at hsub; cases s <;> cases t <;> exact hsub
    | _ => rw [hy] at hsub; exact hsub
  | _ => rfl

theorem StandsFor.neg (hx : StandsFor x p) : StandsFor (-x) (-p) := by
  have hvalue := unpackedValue_neg x.toModel.unpack
  rw [hx.unpackedValue_eq] at hvalue
  exact hvalue ▸ standsFor_pack hx.canonical.neg (by rw [hvalue, abs_neg]; exact hx.abs_lt)

theorem StandsFor.abs (hx : StandsFor x p) : StandsFor x.abs |p| := by
  have habs := abs_unpacked hx.canonical
  rw [hx.unpackedValue_eq] at habs
  exact habs.1 ▸ standsFor_pack habs.2 (by rw [habs.1, abs_abs]; exact hx.abs_lt)

end Colourway.Double
