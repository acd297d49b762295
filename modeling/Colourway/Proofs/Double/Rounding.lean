/-
  How a double is rounded, digit by digit. A mantissa is cut off from a number and keeps two
  bits that tell where in the last place the number lies (`Describes`); both bits stay true
  when digits are shifted out (`Describes.shiftRight`), and rounding by them is rounding to the
  nearest whole number (`Describes.roundedMantissa_eq`). So the outcome is the nearest
  representable number, in its canonical form (`roundWithAccuracy_describes`, `normalize_eq`).
-/
import Colourway.Proofs.Double.Nearest

namespace Colourway.Double

open Float.Model Float.Model.UnpackedFloat

/-! ## Mantissas -/

/-- The mantissa is the whole part of the number. The round bit tells that the rest is a half
at least, the sticky bit that it is neither nothing nor a half. -/
structure Describes (em : ExtendedMantissa) (x : ℚ) : Prop where
  floor_eq : ⌊x⌋ = em.mantissa
  roundBit_iff : em.roundBit = true ↔ 1 / 2 ≤ Int.fract x
  stickyBit_iff : em.stickyBit = true ↔ Int.fract x ≠ 0 ∧ Int.fract x ≠ 1 / 2

theorem describes_natCast (m : ℕ) : Describes ⟨m, false, false⟩ m where
  floor_eq := Int.floor_natCast m
  roundBit_iff := by rw [Int.fract_natCast]; norm_num
  stickyBit_iff := by rw [Int.fract_natCast]; norm_num

/-- Halving a number drops the last digit of its whole part into the rest. -/
theorem floor_and_fract_half {x : ℚ} {m : ℕ} (hx : ⌊x⌋ = m) :
    ⌊x / 2⌋ = (m / 2 : ℕ) ∧ Int.fract (x / 2) = ((m % 2 : ℕ) + Int.fract x) / 2 := by
  have hfract : x = m + Int.fract x := by
    have h := Int.floor_add_fract x
    rw [hx] at h
    exact h.symm
  have hlow := Int.fract_nonneg x
  have hhigh := Int.fract_lt_one x
  have hm : (m : ℚ) = 2 * (m / 2 : ℕ) + (m % 2 : ℕ) := by exact_mod_cast (Nat.div_add_mod m 2).symm
  have hbit : ((m % 2 : ℕ) : ℚ) ≤ 1 := by exact_mod_cast Nat.le_of_lt_succ (Nat.mod_lt m two_pos)
  have hbit' : (0 : ℚ) ≤ (m % 2 : ℕ) := Nat.cast_nonneg _
  have hfloor : ⌊x / 2⌋ = (m / 2 : ℕ) := by
    rw [Int.floor_eq_iff, Int.cast_natCast]
    constructor <;> linarith
  refine ⟨hfloor, ?_⟩
  rw [Int.fract, hfloor, Int.cast_natCast]
  linarith

theorem Describes.roundBit_or_stickyBit_iff {em : ExtendedMantissa} {x : ℚ}
    (h : Describes em x) : (em.roundBit || em.stickyBit) = true ↔ Int.fract x ≠ 0 := by
  rw [Bool.or_eq_true, h.roundBit_iff, h.stickyBit_iff]
  constructor
  · rintro (hhalf | hrest)
    · linarith
    · exact hrest.1
  · intro hne
    by_cases hhalf : Int.fract x = 1 / 2
    · exact .inl hhalf.ge
    · exact .inr ⟨hne, hhalf⟩

theorem Describes.shiftRightOne {em : ExtendedMantissa} {x : ℚ} (h : Describes em x) :
    Describes em.shiftRightOne (x / 2) := by
  obtain ⟨hfloor, hfract⟩ := floor_and_fract_half h.floor_eq
  have hlow := Int.fract_nonneg x
  have hhigh := Int.fract_lt_one x
  refine ⟨hfloor, ?_, ?_⟩
  · rw [hfract]
    rcases Nat.mod_two_eq_zero_or_one em.mantissa with hbit | hbit
    · simp only [ExtendedMantissa.shiftRightOne, hbit, bne_self_eq_false, Bool.false_eq_true,
        false_iff, not_le, Nat.cast_zero]
      linarith
    · simp only [ExtendedMantissa.shiftRightOne, hbit, Nat.cast_one]
      constructor
      · intro _
        linarith
      · intro _
        rfl
  · rw [hfract, ExtendedMantissa.shiftRightOne, h.roundBit_or_stickyBit_iff]
    rcases Nat.mod_two_eq_zero_or_one em.mantissa with hbit | hbit
    · rw [hbit, Nat.cast_zero]
      constructor
      · intro hne
        exact ⟨fun h0 => hne (by linarith), fun h1 => by linarith⟩
      · rintro ⟨hne, -⟩ h0
        exact hne (by linarith)
    · rw [hbit, Nat.cast_one]
      constructor
      · intro hne
        exact ⟨fun h0 => by linarith, fun h1 => hne (by linarith)⟩
      · rintro ⟨-, hne⟩ h0
        exact hne (by linarith)

theorem Describes.shiftRight {em : ExtendedMantissa} {x : ℚ} (h : Describes em x) (n : ℕ) :
    Describes (em >>> n) (x / 2 ^ n) := by
  induction n with
  | zero => rwa [pow_zero, div_one]
  | succ n ih =>
    rw [pow_succ, ← div_div]
    exact ih.shiftRightOne

theorem Describes.roundedMantissa_eq {em : ExtendedMantissa} {x : ℚ} (h : Describes em x) :
    (em.roundedMantissa : ℤ) = roundHalfEven x := by
  obtain ⟨m, r, s⟩ := em
  have hfloor : ⌊x⌋ = m := h.floor_eq
  have hround := h.roundBit_iff
  have hsticky := h.stickyBit_iff
  rw [roundHalfEven, hfloor]
  cases r <;> cases s <;>
    simp only [Bool.false_eq_true, false_iff, true_iff, not_le, not_and_or, not_not] at hround hsticky
  · rw [if_pos hround]; rfl
  · rw [if_pos hround]; rfl
  · have hhalf : Int.fract x = 1 / 2 := hsticky.resolve_left (by linarith)
    rw [if_neg (by linarith), if_neg (by linarith)]; rfl
  · rw [if_neg (by linarith), if_pos (lt_of_le_of_ne hround (Ne.symm hsticky.2))]; rfl

/-- The rest of a division tells where in the last place the quotient lies. -/
theorem describes_accuracyOfFraction (m : ℕ) {num den : ℕ} (h : num < den) :
    Describes (.ofMantissaAndAccuracy m (accuracyOfFraction num den)) (m + num / den) := by
  have hden : (0 : ℚ) < den := by exact_mod_cast (Nat.zero_le num).trans_lt h
  have hnonneg : (0 : ℚ) ≤ num / den := by positivity
  have hlt : (num : ℚ) / den < 1 := by
    rw [div_lt_one hden]
    exact_mod_cast h
  have hfloor : ⌊(m : ℚ) + num / den⌋ = m := by
    rw [Int.floor_eq_iff, Int.cast_natCast]
    constructor <;> linarith
  have hfract : Int.fract ((m : ℚ) + num / den) = num / den := by
    rw [Int.fract, hfloor, Int.cast_natCast, add_sub_cancel_left]
  have hhalf : (1 : ℚ) / 2 ≤ num / den ↔ den ≤ 2 * num := by
    rw [div_le_div_iff₀ two_pos hden, one_mul, mul_comm]
    exact_mod_cast Iff.rfl
  have heq : (num : ℚ) / den = 1 / 2 ↔ 2 * num = den := by
    rw [div_eq_div_iff hden.ne' two_ne_zero, one_mul, mul_comm]
    exact_mod_cast Iff.rfl
  have hzero : (num : ℚ) / den = 0 ↔ num = 0 := by
    rw [div_eq_zero_iff, Nat.cast_eq_zero, or_iff_left hden.ne']
  unfold accuracyOfFraction
  split
  case isTrue h0 =>
    have hm := describes_natCast m
    rwa [h0, Nat.cast_zero, zero_div, add_zero]
  case isFalse h0 =>
    refine ⟨hfloor.trans ?_, ?_, ?_⟩
    · cases compare (2 * num) den <;> rfl
    · rw [hfract, hhalf]
      cases hc : compare (2 * num) den with
      | lt => simpa [ExtendedMantissa.ofMantissaAndAccuracy] using Nat.compare_eq_lt.1 hc
      | eq => simpa [ExtendedMantissa.ofMantissaAndAccuracy] using (Nat.compare_eq_eq.1 hc).ge
      | gt => simpa [ExtendedMantissa.ofMantissaAndAccuracy] using (Nat.compare_eq_gt.1 hc).le
    · rw [hfract, Ne, hzero, Ne, heq, and_iff_right h0]
      cases hc : compare (2 * num) den with
      | lt => simpa [ExtendedMantissa.ofMantissaAndAccuracy] using (Nat.compare_eq_lt.1 hc).ne
      | eq => simpa [ExtendedMantissa.ofMantissaAndAccuracy] using Nat.compare_eq_eq.1 hc
      | gt => simpa [ExtendedMantissa.ofMantissaAndAccuracy] using (Nat.compare_eq_gt.1 hc).ne'

theorem describes_quotient (m : ℕ) {n : ℕ} (hn : 0 < n) :
    Describes (.ofMantissaAndAccuracy (m / n) (accuracyOfFraction (m % n) n)) (m / n) := by
  have hn0 : (n : ℚ) ≠ 0 := Nat.cast_ne_zero.2 hn.ne'
  have hquot : ((m / n : ℕ) : ℚ) + (m % n : ℕ) / n = m / n := by
    rw [eq_div_iff hn0, add_mul, div_mul_cancel₀ _ hn0]
    exact_mod_cast Nat.div_add_mod' m n
  exact hquot ▸ describes_accuracyOfFraction (m / n) (Nat.mod_lt m hn)

/-! ## Unpacked doubles -/

/-- The number with a sign put before it. -/
def signed : Sign → ℚ → ℚ
  | .negative, q => -q
  | .positive, q => q

/-- The number that an unpacked double stands for; zero if it stands for none. -/
def unpackedValue : UnpackedFloat → ℚ
  | .finite s m e _ => signed s (m * 2 ^ e)
  | _ => 0

/-- A finite double, in the form it is packed from: it has at most 53 digits, none of them
below the least place, and the first one is used unless the last one stands at the least
place. -/
def Canonical : UnpackedFloat → Prop
  | .finite _ m e _ => m < 2 ^ 53 ∧ -1074 ≤ e ∧ (2 ^ 52 ≤ m ∨ e = -1074)
  | .zero _ => True
  | _ => False

@[elab_as_elim]
theorem Canonical.zero_or_finite {motive : ∀ u, Canonical u → Prop} {u : UnpackedFloat}
    (hu : Canonical u) (zero : ∀ s, motive (.zero s) trivial)
    (finite : ∀ s m e hm h, motive (.finite s m e hm) h) : motive u hu := by
  cases u with
  | infinity s => exact hu.elim
  | notANumber => exact hu.elim
  | zero s => exact zero s
  | finite s m e hm => exact finite s m e hm hu

theorem targetExponent_binary64 (t : ℤ) :
    Format.binary64.targetExponent t = max (t - 53) (-1074) := by
  simp only [Format.targetExponent, Format.mantissaBits, Format.minExponent]
  norm_num

/-- The exponent that rounding brings a mantissa to. -/
theorem targetExponent_eq (m : ℕ) (e : ℤ) :
    Format.binary64.targetExponent (totalExponent m e) = max (m.log2 + e - 52) (-1074) := by
  rw [targetExponent_binary64, totalExponent]
  omega

/-- The place a mantissa is brought to is the last place of the number it was cut off from. -/
theorem lastPlace_mul_two_zpow {m : ℕ} {e : ℤ} {x : ℚ} (hfloor : ⌊x⌋ = m) (hx : 0 < x)
    (he : e ≤ max (m.log2 + e - 52 : ℤ) (-1074)) :
    lastPlace (x * 2 ^ e) = max (m.log2 + e - 52 : ℤ) (-1074) := by
  have hpos := two_zpow_pos e
  have hq : 0 < x * 2 ^ e := mul_pos hx hpos
  have hlt : x < m + 1 := by
    have h := Int.lt_floor_add_one x
    rwa [hfloor] at h
  have hhigh : x * 2 ^ e < 2 ^ (m.log2 + 1 + e : ℤ) := by
    have hlog : (m : ℚ) + 1 ≤ 2 ^ (m.log2 + 1 : ℤ) := by
      exact_mod_cast Nat.lt_log2_self (n := m)
    rw [zpow_add₀ (by norm_num)]
    exact mul_lt_mul_of_pos_right (hlt.trans_le hlog) hpos
  refine lastPlace_eq (le_max_right _ _) ?_ hq.ne' ?_
  · rw [abs_of_pos hq]
    refine hhigh.trans_le (zpow_le_zpow_right₀ (by norm_num) ?_)
    omega
  · rw [abs_of_pos hq]
    rcases max_choice (m.log2 + e - 52 : ℤ) (-1074) with h | h
    · right
      have hm : m ≠ 0 := by
        rintro rfl
        rw [h] at he
        have h0 : Nat.log2 0 = 0 := Nat.log2_zero
        omega
      have hlow : (2 : ℚ) ^ (m.log2 : ℤ) ≤ x := by
        have hlog : (2 : ℚ) ^ (m.log2 : ℤ) ≤ m := by exact_mod_cast Nat.log2_self_le hm
        refine hlog.trans ?_
        have hle := Int.floor_le x
        rwa [hfloor] at hle
      rw [h, sub_add_cancel, zpow_add₀ (by norm_num)]
      exact mul_le_mul_of_nonneg_right hlow hpos.le
    · exact .inl h

theorem shiftToTargetExponent_eq {m : ℕ} {e : ℤ} {acc : Accuracy}
    (he : e ≤ max (m.log2 + e - 52 : ℤ) (-1074)) :
    shiftToTargetExponent .binary64 m e acc =
      (ExtendedMantissa.ofMantissaAndAccuracy m acc >>>
        (max (m.log2 + e - 52 : ℤ) (-1074) - e).toNat, max (m.log2 + e - 52 : ℤ) (-1074)) := by
  rw [shiftToTargetExponent, targetExponent_eq, shiftToExponent, Int.toNat_of_nonneg (by omega),
    add_sub_cancel]

/-- A mantissa that has no digit too many is not shifted. -/
theorem shiftToTargetExponent_of_lt {m : ℕ} {e : ℤ} (hm : m < 2 ^ 53) (he : -1074 ≤ e) :
    shiftToTargetExponent .binary64 m e .exact = (⟨m, false, false⟩, e) := by
  have hlog : m.log2 < 53 := by
    by_cases h0 : m = 0
    · rw [h0, Nat.log2_zero]; norm_num
    · exact (Nat.log2_lt h0).2 hm
  have hshift : (max (m.log2 + e - 52 : ℤ) (-1074) - e).toNat = 0 := by omega
  rw [shiftToTargetExponent, targetExponent_eq, shiftToExponent, hshift]
  simp only [Nat.cast_zero, add_zero]
  rfl

/-- A mantissa that was rounded up to one digit more is shifted by this digit, which is zero. -/
theorem shiftToTargetExponent_two_pow {e : ℤ} (he : -1074 ≤ e) :
    shiftToTargetExponent .binary64 (2 ^ 53) e .exact = (⟨2 ^ 52, false, false⟩, e + 1) := by
  have hlog : Nat.log2 (2 ^ 53) = 53 := Nat.log2_two_pow
  have hshift : (max ((53 : ℕ) + e - 52 : ℤ) (-1074) - e).toNat = 1 := by omega
  rw [shiftToTargetExponent, targetExponent_eq, hlog, shiftToExponent, hshift]
  rfl

/-- A rounded mantissa is brought to its canonical form, and its value stays. -/
theorem exists_shiftToTargetExponent_eq {m : ℕ} {e : ℤ} (hm : m ≤ 2 ^ 53) (he : -1074 ≤ e)
    (hfull : 2 ^ 52 ≤ m ∨ e = -1074) :
    ∃ m' e', shiftToTargetExponent .binary64 m e .exact = (⟨m', false, false⟩, e') ∧
      (m' : ℚ) * 2 ^ e' = m * 2 ^ e ∧ m' < 2 ^ 53 ∧ -1074 ≤ e' ∧ (2 ^ 52 ≤ m' ∨ e' = -1074) := by
  rcases hm.lt_or_eq with hlt | rfl
  · exact ⟨m, e, shiftToTargetExponent_of_lt hlt he, rfl, hlt, he, hfull⟩
  · refine ⟨2 ^ 52, e + 1, shiftToTargetExponent_two_pow he, ?_, by norm_num, by omega,
      .inl le_rfl⟩
    rw [zpow_add_one₀ (by norm_num)]
    push_cast
    ring

variable {m : ℕ} {e : ℤ} {acc : Accuracy} {x : ℚ}

/-- Rounding by what is known of a number gives the nearest representable number. -/
theorem roundWithAccuracy_describes (s : Sign) (hd : Describes (.ofMantissaAndAccuracy m acc) x)
    (hm : ⌊x⌋ = m) (hx : 0 < x) (he : e ≤ max (m.log2 + e - 52 : ℤ) (-1074)) :
    unpackedValue (roundWithAccuracy .binary64 s m e acc) = signed s (nearest (x * 2 ^ e)) ∧
      Canonical (roundWithAccuracy .binary64 s m e acc) := by
  have hplace := lastPlace_mul_two_zpow hm hx he
  obtain ⟨t, ht⟩ : ∃ t, t = max (m.log2 + e - 52 : ℤ) (-1074) := ⟨_, rfl⟩
  rw [← ht] at he hplace
  have hleast : -1074 ≤ t := ht ▸ le_max_right _ _
  have hscale : x / 2 ^ (t - e).toNat = x * 2 ^ e / 2 ^ t := by
    have htoNat : (2 : ℚ) ^ (t - e).toNat = 2 ^ (t - e) := by
      rw [← zpow_natCast, Int.toNat_of_nonneg (by omega)]
    rw [htoNat, zpow_sub₀ (by norm_num), div_div_eq_mul_div]
  have hshift := hd.shiftRight (t - e).toNat
  obtain ⟨n, hn⟩ : ∃ n, n = (ExtendedMantissa.ofMantissaAndAccuracy m acc >>>
    (t - e).toNat).roundedMantissa := ⟨_, rfl⟩
  have hround : (n : ℤ) = roundHalfEven (x * 2 ^ e / 2 ^ t) := by
    rw [hn, hshift.roundedMantissa_eq, hscale]
  have hnearest : nearest (x * 2 ^ e) = n * 2 ^ t := by
    rw [nearest, hplace, ← hround, Int.cast_natCast]
  have hbound : n ≤ 2 ^ 53 := by
    have h := abs_roundHalfEven_div_le (x * 2 ^ e)
    rw [hplace, ← hround, Nat.abs_cast] at h
    exact_mod_cast h
  have hfull : 2 ^ 52 ≤ n ∨ t = -1074 := by
    by_cases hmin : t = -1074
    · exact .inr hmin
    · have hq : 0 < x * 2 ^ e := mul_pos hx (two_zpow_pos e)
      have hbig := two_zpow_le_abs hq.ne' (hplace ▸ hmin)
      rw [hplace, abs_of_pos hq, add_comm, zpow_add₀ (by norm_num)] at hbig
      have hle : ((2 ^ 52 : ℤ) : ℚ) ≤ x * 2 ^ e / 2 ^ t := by
        rw [le_div_iff₀ (two_zpow_pos t)]
        exact_mod_cast hbig
      have h := le_roundHalfEven hle
      rw [← hround] at h
      exact .inl (by exact_mod_cast h)
  obtain ⟨m', e', heq, hvalue, hlt, hle, hcanon⟩ :=
    exists_shiftToTargetExponent_eq hbound hleast hfull
  rw [hnearest, ← hvalue]
  rw [roundWithAccuracy, shiftToTargetExponent_eq (ht ▸ he), ← ht]
  simp only [← hn, heq]
  split
  case isTrue h0 =>
    rw [h0]
    exact ⟨by cases s <;> simp [unpackedValue, signed], trivial⟩
  case isFalse h0 => exact ⟨rfl, hlt, hle, hcanon⟩

/-- A mantissa that holds the whole number is rounded like the number. -/
theorem roundWithAccuracy_natCast (s : Sign) (hm : 0 < m)
    (he : e ≤ max (m.log2 + e - 52 : ℤ) (-1074)) :
    unpackedValue (roundWithAccuracy .binary64 s m e .exact) = signed s (nearest (m * 2 ^ e)) ∧
      Canonical (roundWithAccuracy .binary64 s m e .exact) := by
  have hdesc := describes_natCast m
  exact roundWithAccuracy_describes s hdesc hdesc.floor_eq (by exact_mod_cast hm) he

/-- A quotient of whole numbers is rounded by its whole part and what this leaves. -/
theorem roundWithAccuracy_quotient (s : Sign) (hm : 0 < m) {n : ℕ} (hn : 0 < n)
    (he : e ≤ max ((m / n).log2 + e - 52 : ℤ) (-1074)) :
    unpackedValue (roundWithAccuracy .binary64 s (m / n) e (accuracyOfFraction (m % n) n)) =
        signed s (nearest (m / n * 2 ^ e)) ∧
      Canonical (roundWithAccuracy .binary64 s (m / n) e (accuracyOfFraction (m % n) n)) :=
  roundWithAccuracy_describes s (describes_quotient m hn)
    ((Rat.floor_natCast_div_natCast m n).trans (Int.natCast_div m n).symm) (by positivity) he

theorem log2_shiftLeft {m : ℕ} (hm : 0 < m) (k : ℕ) : (m <<< k).log2 = m.log2 + k := by
  rw [Nat.shiftLeft_eq, Nat.log2_eq_iff (by positivity)]
  have hlow := Nat.log2_self_le hm.ne'
  have hhigh := Nat.lt_log2_self (n := m)
  constructor
  · rw [pow_add]
    exact Nat.mul_le_mul_right _ hlow
  · rw [show m.log2 + k + 1 = m.log2 + 1 + k by ring, pow_add]
    exact Nat.mul_lt_mul_of_pos_right hhigh (by positivity)

/-- A finite unpacked double is rounded to the nearest representable number. -/
theorem round_eq (s : Sign) (hm : 0 < m) (e : ℤ) :
    unpackedValue (UnpackedFloat.round .binary64 s m e) = signed s (nearest (m * 2 ^ e)) ∧
      Canonical (UnpackedFloat.round .binary64 s m e) := by
  obtain ⟨t, ht⟩ : ∃ t, t = max (m.log2 + e - 52 : ℤ) (-1074) := ⟨_, rfl⟩
  have hvalue : ((m <<< (e - t).toNat : ℕ) : ℚ) * 2 ^ (e - (e - t).toNat) = m * 2 ^ e := by
    rw [Nat.shiftLeft_eq, zpow_sub₀ (by norm_num), zpow_natCast]
    push_cast
    field_simp
  have hpos : 0 < m <<< (e - t).toNat := by
    rw [Nat.shiftLeft_eq]
    positivity
  have hround := roundWithAccuracy_natCast (e := e - (e - t).toNat) s hpos
    (by rw [log2_shiftLeft hm]; omega)
  rw [UnpackedFloat.round, targetExponent_eq, ← ht]
  rwa [hvalue] at hround

/-- So is a signed mantissa. -/
theorem normalize_eq (n : ℤ) (e : ℤ) (s : Sign) :
    unpackedValue (UnpackedFloat.normalize .binary64 n e s) = nearest (n * 2 ^ e) ∧
      Canonical (UnpackedFloat.normalize .binary64 n e s) := by
  unfold UnpackedFloat.normalize
  cases h : compare n 0 with
  | lt =>
    have hn : n < 0 := compare_lt_iff_lt.1 h
    have hround := round_eq .negative (m := (-n).toNat) (by omega) e
    have hcast : (((-n).toNat : ℕ) : ℚ) = -n := by
      exact_mod_cast Int.toNat_of_nonneg (by omega : 0 ≤ -n)
    rw [hcast, neg_mul, nearest_neg, signed, neg_neg] at hround
    exact hround
  | eq =>
    have hn : n = 0 := compare_eq_iff_eq.1 h
    rw [hn, Int.cast_zero, zero_mul, nearest_zero]
    exact ⟨rfl, trivial⟩
  | gt =>
    have hn : 0 < n := compare_gt_iff_gt.1 h
    have hround := round_eq .positive (m := n.toNat) (by omega) e
    have hcast : ((n.toNat : ℕ) : ℚ) = n := by
      exact_mod_cast Int.toNat_of_nonneg hn.le
    rwa [hcast, signed] at hround

end Colourway.Double
