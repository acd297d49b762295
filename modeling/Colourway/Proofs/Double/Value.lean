/-
  Doubles and the numbers they stand for.

  `StandsFor x q` says that a double is finite and which number it is. Packing a canonical
  double that is not too large loses nothing (`standsFor_pack`), and every finite double is
  unpacked to its canonical form (`canonical_unpack`). Doubles compare like their numbers
  (`StandsFor.lt_iff`, `StandsFor.beq_iff`), because a canonical form with the greater exponent
  is the greater number.
-/
import Colourway.Proofs.Double.Rounding

namespace Colourway.Double

open Float.Model Float.Model.UnpackedFloat

/-! ## Packing -/

theorem log2_eq_of_full {m : ℕ} (hlow : 2 ^ 52 ≤ m) (hhigh : m < 2 ^ 53) : m.log2 = 52 :=
  (Nat.log2_eq_iff (by omega)).2 ⟨hlow, hhigh⟩

theorem log2_lt_of_lt {m : ℕ} (hm : 0 < m) (h : m < 2 ^ 52) : m.log2 < 52 :=
  (Nat.log2_lt hm.ne').2 h

/-- The first digit is left out when a mantissa that uses it is packed. -/
theorem unpack_pack_normal (s : Sign) {m : ℕ} {e : ℤ} (hm : 0 < m) (hlow : 2 ^ 52 ≤ m)
    (hhigh : m < 2 ^ 53) (hmin : -1074 ≤ e) (hmax : e ≤ 971) :
    UnpackedFloat.unpack .binary64 (UnpackedFloat.pack .binary64 (.finite s m e hm)) =
      .finite s m e hm := by
  have hpack : UnpackedFloat.pack .binary64 (.finite s m e hm) =
      packComponents .binary64 s (BitVec.ofNat 11 (e + 1023 + 52).toNat) (BitVec.ofNat 52 m) := by
    rw [UnpackedFloat.pack]
    simp only [Format.exponentBias, Format.mantissaBits, log2_eq_of_full hlow hhigh]
    norm_num
    omega
  have hbias : (BitVec.ofNat 11 (e + 1023 + 52).toNat).toNat = (e + 1023 + 52).toNat := by
    rw [BitVec.toNat_ofNat]
    omega
  have hones : BitVec.ofNat 11 (e + 1023 + 52).toNat ≠ -1#11 := by
    rw [Ne, ← BitVec.toNat_inj, hbias]
    have h : (-1#11).toNat = 2047 := rfl
    omega
  have hzero : BitVec.ofNat 11 (e + 1023 + 52).toNat ≠ 0#11 := by
    rw [Ne, ← BitVec.toNat_inj, hbias]
    have h : (0#11).toNat = 0 := rfl
    omega
  have hmantissa : (1#1 ++ BitVec.ofNat 52 m).toNat = m := by
    have hrest : m % 2 ^ 52 = m - 2 ^ 52 := by omega
    have hor := Nat.two_pow_add_eq_or_of_lt (show m - 2 ^ 52 < 2 ^ 52 by omega) 1
    have hfirst : (1 % 2 ^ 1) <<< 52 = 2 ^ 52 * 1 := by decide
    rw [BitVec.toNat_append, BitVec.toNat_ofNat, BitVec.toNat_ofNat, hrest, hfirst, ← hor]
    omega
  rw [hpack, UnpackedFloat.unpack]
  simp only [unpackMantissa_packComponents, unpackExponent_packComponents,
    unpackSign_packComponents, Sign.ofBitVec_toBitVec, if_neg hones, if_neg hzero]
  simp only [hmantissa, hbias, Format.exponentBias]
  congr 1
  norm_num
  omega

/-- A mantissa that leaves the first digit out stands at the least place. -/
theorem unpack_pack_subnormal (s : Sign) {m : ℕ} (hm : 0 < m) (hlt : m < 2 ^ 52) :
    UnpackedFloat.unpack .binary64 (UnpackedFloat.pack .binary64 (.finite s m (-1074) hm)) =
      .finite s m (-1074) hm := by
  have hlog := log2_lt_of_lt hm hlt
  have hpack : UnpackedFloat.pack .binary64 (.finite s m (-1074) hm) =
      packComponents .binary64 s 0#11 (BitVec.ofNat 52 m) := by
    rw [UnpackedFloat.pack]
    simp only [Format.exponentBias, Format.mantissaBits]
    norm_num
    omega
  have hmantissa : (BitVec.ofNat 52 m).toNat = m := by
    rw [BitVec.toNat_ofNat]
    omega
  have hne : BitVec.ofNat 52 m ≠ 0#52 := by
    rw [Ne, ← BitVec.toNat_inj, hmantissa]
    exact hm.ne'
  have hones : 0#11 ≠ -1#11 := by decide
  rw [hpack, UnpackedFloat.unpack]
  simp only [unpackMantissa_packComponents, unpackExponent_packComponents,
    unpackSign_packComponents, Sign.ofBitVec_toBitVec, if_neg hones, dif_neg hne]
  simp only [hmantissa, Format.exponentBias]
  rfl

theorem abs_signed {q : ℚ} (hq : 0 ≤ q) (s : Sign) : |signed s q| = q := by
  cases s with
  | negative => rw [signed, abs_neg, abs_of_nonneg hq]
  | positive => rw [signed, abs_of_nonneg hq]

/-- Unpacking gives back what was packed, unless it is too large. -/
theorem unpack_pack {u : UnpackedFloat} (hu : Canonical u)
    (hlt : |unpackedValue u| < 2 ^ (1024 : ℤ)) :
    UnpackedFloat.unpack .binary64 (UnpackedFloat.pack .binary64 u) = u := by
  cases hu using Canonical.zero_or_finite with
  | zero s => exact unpack_packedZero
  | finite s m e hm hu =>
    obtain ⟨h53, hmin, hfull⟩ := hu
    have habs : |unpackedValue (.finite s m e hm)| = m * 2 ^ e := abs_signed (by positivity) s
    have hmax : e ≤ 971 := by
      rcases hfull with h52 | rfl
      · have hle : (2 : ℚ) ^ (52 + e) ≤ m * 2 ^ e := by
          rw [zpow_add₀ (by norm_num)]
          exact mul_le_mul_of_nonneg_right (by exact_mod_cast h52) (two_zpow_pos e).le
        rw [habs] at hlt
        have := (zpow_lt_zpow_iff_right₀ (by norm_num : (1 : ℚ) < 2)).1 (hle.trans_lt hlt)
        omega
      · norm_num
    by_cases h52 : 2 ^ 52 ≤ m
    · exact unpack_pack_normal s hm h52 h53 hmin hmax
    · obtain rfl := hfull.resolve_left h52
      exact unpack_pack_subnormal s hm (not_le.1 h52)

theorem unpack_packedInfinity (s : Sign) :
    UnpackedFloat.unpack .binary64 (packedInfinity .binary64 s) = .infinity s := by
  rw [packedInfinity, UnpackedFloat.unpack]
  simp

/-- What is too large is packed as infinite. -/
theorem pack_of_le {s : Sign} {m : ℕ} {e : ℤ} {hm : 0 < m} (hu : Canonical (.finite s m e hm))
    (hle : (2 : ℚ) ^ (1024 : ℤ) ≤ m * 2 ^ e) :
    UnpackedFloat.pack .binary64 (.finite s m e hm) = packedInfinity .binary64 s := by
  have hlt : (m : ℚ) * 2 ^ e < 2 ^ (53 + e) := by
    rw [zpow_add₀ (by norm_num)]
    exact mul_lt_mul_of_pos_right (by exact_mod_cast hu.1) (two_zpow_pos e)
  have hexp : 1024 < 53 + e :=
    (zpow_lt_zpow_iff_right₀ (by norm_num : (1 : ℚ) < 2)).1 (hle.trans_lt hlt)
  rw [UnpackedFloat.pack]
  refine if_pos ?_
  simp only [Format.exponentBias]
  norm_num
  omega

theorem isFinite_unpack_pack_of_le {u : UnpackedFloat} (hu : Canonical u)
    (hle : 2 ^ (1024 : ℤ) ≤ |unpackedValue u|) :
    (UnpackedFloat.unpack .binary64 (UnpackedFloat.pack .binary64 u)).isFinite = false := by
  have hzero : ¬(2 : ℚ) ^ (1024 : ℤ) ≤ |0| := by
    rw [abs_zero, not_le]
    positivity
  cases hu using Canonical.zero_or_finite with
  | zero s => exact absurd hle hzero
  | finite s m e hm hu =>
    have habs : |unpackedValue (.finite s m e hm)| = m * 2 ^ e := abs_signed (by positivity) s
    rw [pack_of_le hu (habs ▸ hle), unpack_packedInfinity]
    rfl

theorem canonical_unpack {b : BitVec 64}
    (h : (UnpackedFloat.unpack .binary64 b).isFinite = true) :
    Canonical (UnpackedFloat.unpack .binary64 b) := by
  revert h
  fun_cases UnpackedFloat.unpack .binary64 b with
  | case1 => exact nofun
  | case2 => exact nofun
  | case3 => exact fun _ => trivial
  | case4 mantissa exponent place sign _ _ hexp hne =>
    intro _
    have hm : mantissa.toNat < 2 ^ 52 := mantissa.isLt
    have hplace : place = -1075 := by
      simp only [place, hexp, Format.exponentBias]
      rfl
    exact ⟨by omega, by omega, .inr (by omega)⟩
  | case5 mantissa exponent place _ sign hones hzero =>
    intro _
    have hplace : place = exponent.toNat - 1075 := by
      simp only [place, Format.exponentBias]
      rfl
    have hm : mantissa.toNat < 2 ^ 52 := mantissa.isLt
    have hor := Nat.two_pow_add_eq_or_of_lt hm 1
    have hfirst : (1 % 2 ^ 1) <<< 52 = 2 ^ 52 * 1 := by decide
    have hexp : exponent.toNat ≠ 0 := fun h0 => hzero (BitVec.toNat_inj.1 h0)
    have htoNat : (1#1 ++ mantissa).toNat = 2 ^ 52 + mantissa.toNat := by
      rw [BitVec.toNat_append, BitVec.toNat_ofNat]
      exact hfirst ▸ hor.symm
    refine ⟨?_, ?_, .inl ?_⟩
    · rw [htoNat]; omega
    · omega
    · rw [htoNat]; omega

theorem Canonical.representable {u : UnpackedFloat} (hu : Canonical u) :
    Representable (unpackedValue u) := by
  cases hu using Canonical.zero_or_finite with
  | zero s => exact representable_zero
  | finite s m e hm hu =>
    have hm53 : |(m : ℤ)| < 2 ^ 53 := by
      rw [Nat.abs_cast]
      exact_mod_cast hu.1
    have hr : Representable (m * 2 ^ e) := ⟨m, e, hm53, hu.2.1, by rw [Int.cast_natCast]⟩
    cases s with
    | negative => exact hr.neg
    | positive => exact hr

theorem abs_unpackedValue_unpack_lt (b : BitVec 64) :
    |unpackedValue (UnpackedFloat.unpack .binary64 b)| < 2 ^ (1024 : ℤ) := by
  have hmag : ∀ (s : Sign) {m : ℕ} {e : ℤ}, m < 2 ^ 53 → e ≤ 971 →
      |signed s (m * 2 ^ e)| < 2 ^ (1024 : ℤ) := by
    intro s m e hm he
    rw [abs_signed (by positivity)]
    calc (m : ℚ) * 2 ^ e < 2 ^ (53 : ℤ) * 2 ^ e :=
          mul_lt_mul_of_pos_right (by exact_mod_cast hm) (two_zpow_pos e)
      _ = 2 ^ (53 + e) := (zpow_add₀ (by norm_num) _ _).symm
      _ ≤ 2 ^ (1024 : ℤ) := zpow_le_zpow_right₀ (by norm_num) (by omega)
  have hzero : |(0 : ℚ)| < 2 ^ (1024 : ℤ) := by rw [abs_zero]; positivity
  fun_cases UnpackedFloat.unpack .binary64 b with
  | case1 => exact hzero
  | case2 => exact hzero
  | case3 => exact hzero
  | case4 mantissa exponent place sign _ _ hexp hne =>
    have hplace : place = -1075 := by
      simp only [place, hexp, Format.exponentBias]
      rfl
    have hm : mantissa.toNat < 2 ^ 52 := mantissa.isLt
    exact hmag _ (by omega) (by omega)
  | case5 mantissa exponent place _ sign hones hzero =>
    have hplace : place = exponent.toNat - 1075 := by
      simp only [place, Format.exponentBias]
      rfl
    have hexp : exponent.toNat ≠ 2047 := fun h => hones (BitVec.toNat_inj.1 h)
    have hlt : exponent.toNat < 2048 := exponent.isLt
    have hm : (1#1 ++ mantissa).toNat < 2 ^ 53 := (1#1 ++ mantissa).isLt
    exact hmag _ hm (by omega)

/-! ## Comparing -/

/-- Of two canonical forms, the one with the greater exponent is the greater number. -/
theorem mul_two_zpow_lt_of_lt {m n : ℕ} {e f : ℤ} (hm : m < 2 ^ 53) (he : -1074 ≤ e)
    (hn : 2 ^ 52 ≤ n ∨ f = -1074) (hef : e < f) : (m : ℚ) * 2 ^ e < n * 2 ^ f := by
  have hn : (2 : ℚ) ^ (52 : ℤ) ≤ n := by exact_mod_cast hn.resolve_right (by omega)
  have hm : (m : ℚ) < 2 ^ (53 : ℤ) := by exact_mod_cast hm
  calc (m : ℚ) * 2 ^ e < 2 ^ (53 : ℤ) * 2 ^ e := mul_lt_mul_of_pos_right hm (two_zpow_pos e)
    _ = 2 ^ (53 + e) := (zpow_add₀ (by norm_num) _ _).symm
    _ ≤ 2 ^ (52 + f) := zpow_le_zpow_right₀ (by norm_num) (by omega)
    _ = 2 ^ (52 : ℤ) * 2 ^ f := zpow_add₀ (by norm_num) _ _
    _ ≤ n * 2 ^ f := mul_le_mul_of_nonneg_right hn (two_zpow_pos f).le

theorem compare_mul_two_zpow {m n : ℕ} {e f : ℤ} (hm : m < 2 ^ 53) (hn : n < 2 ^ 53)
    (he : -1074 ≤ e) (hf : -1074 ≤ f) (hm' : 2 ^ 52 ≤ m ∨ e = -1074)
    (hn' : 2 ^ 52 ≤ n ∨ f = -1074) :
    (compare e f).then (compare m n) = compare ((m : ℚ) * 2 ^ e) (n * 2 ^ f) := by
  rcases lt_trichotomy e f with h | rfl | h
  · rw [compare_lt_iff_lt.2 h, compare_lt_iff_lt.2 (mul_two_zpow_lt_of_lt hm he hn' h)]
    rfl
  · have hpos := two_zpow_pos e
    rw [compare_eq_iff_eq.2 rfl, Ordering.then]
    rcases lt_trichotomy m n with h | rfl | h
    · rw [compare_lt_iff_lt.2 h, compare_lt_iff_lt.2
        (mul_lt_mul_of_pos_right (Nat.cast_lt.2 h) hpos)]
    · rw [compare_eq_iff_eq.2 rfl, compare_eq_iff_eq.2 rfl]
    · rw [compare_gt_iff_gt.2 h, compare_gt_iff_gt.2
        (mul_lt_mul_of_pos_right (Nat.cast_lt.2 h) hpos)]
  · rw [compare_gt_iff_gt.2 h, compare_gt_iff_gt.2 (mul_two_zpow_lt_of_lt hn hf hm' h)]
    rfl

theorem compare_neg_neg (p q : ℚ) : compare (-p) (-q) = (compare p q).swap := by
  rcases lt_trichotomy p q with h | rfl | h
  · rw [compare_lt_iff_lt.2 h, compare_gt_iff_gt.2 (neg_lt_neg h)]
    rfl
  · rw [compare_eq_iff_eq.2 rfl, compare_eq_iff_eq.2 rfl]
    rfl
  · rw [compare_gt_iff_gt.2 h, compare_lt_iff_lt.2 (neg_lt_neg h)]
    rfl

theorem compare_unpacked {u v : UnpackedFloat} (hu : Canonical u) (hv : Canonical v) :
    u.compare v = some (compare (unpackedValue u) (unpackedValue v)) := by
  have hpos : ∀ {m : ℕ} {e : ℤ}, 0 < m → (0 : ℚ) < m * 2 ^ e :=
    fun hm => mul_pos (Nat.cast_pos.2 hm) (two_zpow_pos _)
  cases hu using Canonical.zero_or_finite with
  | zero s =>
    cases hv using Canonical.zero_or_finite with
    | zero t => rfl
    | finite t n f hn hv =>
      have h := hpos (e := f) hn
      cases t with
      | negative => exact congrArg some (compare_gt_iff_gt.2 (neg_lt_zero.2 h)).symm
      | positive => exact congrArg some (compare_lt_iff_lt.2 h).symm
  | finite s m e hm hu =>
    have h := hpos (e := e) hm
    cases hv using Canonical.zero_or_finite with
    | zero t =>
      cases s with
      | negative => exact congrArg some (compare_lt_iff_lt.2 (neg_lt_zero.2 h)).symm
      | positive => exact congrArg some (compare_gt_iff_gt.2 h).symm
    | finite t n f hn hv =>
      have h' := hpos (e := f) hn
      have hmag := compare_mul_two_zpow hu.1 hv.1 hu.2.1 hv.2.1 hu.2.2 hv.2.2
      cases s with
      | negative =>
        cases t with
        | negative =>
          refine congrArg some ?_
          rw [hmag, unpackedValue, unpackedValue, signed, signed, compare_neg_neg]
        | positive => exact congrArg some (compare_lt_iff_lt.2 ((neg_lt_zero.2 h).trans h')).symm
      | positive =>
        cases t with
        | negative => exact congrArg some (compare_gt_iff_gt.2 ((neg_lt_zero.2 h').trans h)).symm
        | positive => exact congrArg some hmag

/-! ## The number of a double -/

/-- The number that a double stands for; zero if it is infinite or no number. -/
def value (x : Float) : ℚ := unpackedValue x.toModel.unpack

/-- The double is finite, and it is this number. -/
structure StandsFor (x : Float) (q : ℚ) : Prop where
  isFinite : x.isFinite = true
  value_eq : value x = q

variable {x y : Float} {p q : ℚ}

theorem standsFor_value (h : x.isFinite = true) : StandsFor x (value x) := ⟨h, rfl⟩

theorem standsFor_pack {u : UnpackedFloat} (hu : Canonical u)
    (hlt : |unpackedValue u| < 2 ^ (1024 : ℤ)) :
    StandsFor (.ofModel (.pack u)) (unpackedValue u) := by
  have hunpack : (Float.Model.pack u).unpack = u := unpack_pack hu hlt
  have hfinite : u.isFinite = true := by
    cases hu using Canonical.zero_or_finite with
    | zero s => rfl
    | finite s m e hm => rfl
  exact ⟨(congrArg UnpackedFloat.isFinite hunpack).trans hfinite, congrArg unpackedValue hunpack⟩

/-- A double packed from a canonical form stands for its number as soon as it is finite. -/
theorem standsFor_pack_of_isFinite {u : UnpackedFloat} (hu : Canonical u)
    (h : (Float.ofModel (.pack u)).isFinite = true) :
    StandsFor (.ofModel (.pack u)) (unpackedValue u) := by
  refine standsFor_pack hu (not_le.1 fun hle => ?_)
  have hnot : (Float.ofModel (.pack u)).isFinite = false := isFinite_unpack_pack_of_le hu hle
  rw [hnot] at h
  exact Bool.false_ne_true h

/-- What is not finite stays so when it is packed. -/
theorem isFinite_of_pack {u : UnpackedFloat} (h : (Float.ofModel (.pack u)).isFinite = true) :
    u.isFinite = true := by
  cases u with
  | notANumber =>
    have hunpack : (Float.Model.pack .notANumber).unpack = .notANumber := unpack_packedNaN
    exact (congrArg UnpackedFloat.isFinite hunpack).symm.trans h
  | infinity s =>
    have hunpack : (Float.Model.pack (.infinity s)).unpack = .infinity s := unpack_packedInfinity s
    exact (congrArg UnpackedFloat.isFinite hunpack).symm.trans h
  | _ => rfl

theorem StandsFor.canonical (h : StandsFor x p) : Canonical x.toModel.unpack :=
  canonical_unpack h.isFinite

theorem StandsFor.unpackedValue_eq (h : StandsFor x p) : unpackedValue x.toModel.unpack = p :=
  h.value_eq

theorem StandsFor.abs_lt (h : StandsFor x p) : |p| < 2 ^ (1024 : ℤ) :=
  h.value_eq ▸ abs_unpackedValue_unpack_lt _

theorem StandsFor.representable (h : StandsFor x p) : Representable p :=
  h.unpackedValue_eq ▸ h.canonical.representable

theorem StandsFor.exists_unpack_eq_zero (h : StandsFor x 0) : ∃ s, x.toModel.unpack = .zero s := by
  have hu := h.canonical
  have hv := h.unpackedValue_eq
  generalize x.toModel.unpack = u at hu hv ⊢
  cases hu using Canonical.zero_or_finite with
  | zero s => exact ⟨s, rfl⟩
  | finite s m e hm hu =>
    rw [unpackedValue] at hv
    have hpos : (0 : ℚ) < m * 2 ^ e := mul_pos (Nat.cast_pos.2 hm) (two_zpow_pos e)
    have habs := abs_signed hpos.le s
    rw [hv, abs_zero] at habs
    exact absurd habs hpos.ne

theorem StandsFor.compare_eq (hx : StandsFor x p) (hy : StandsFor y q) :
    x.toModel.unpack.compare y.toModel.unpack = some (compare p q) := by
  rw [compare_unpacked hx.canonical hy.canonical, hx.unpackedValue_eq, hy.unpackedValue_eq]

theorem StandsFor.lt_iff (hx : StandsFor x p) (hy : StandsFor y q) : x < y ↔ p < q := by
  have hlt : x < y ↔ (x.toModel.unpack.compare y.toModel.unpack == some .lt) = true :=
    decide_eq_true_iff
  rw [hlt, hx.compare_eq hy, beq_iff_eq, Option.some_inj, compare_lt_iff_lt]

theorem le_iff_compare : x ≤ y ↔ (x.toModel.unpack.compare y.toModel.unpack).any (·.isLE) = true :=
  decide_eq_true_iff

theorem StandsFor.le_iff (hx : StandsFor x p) (hy : StandsFor y q) : x ≤ y ↔ p ≤ q := by
  rw [le_iff_compare, hx.compare_eq hy, Option.any_some, Ordering.isLE_iff_ne_gt, ← Ne,
    compare_le_iff_le]

theorem StandsFor.beq_iff (hx : StandsFor x p) (hy : StandsFor y q) :
    (x == y) = true ↔ p = q := by
  have hbeq : (x == y) = (x.toModel.unpack.compare y.toModel.unpack == some .eq) := rfl
  rw [hbeq, hx.compare_eq hy, beq_iff_eq, Option.some_inj, compare_eq_iff_eq]

end Colourway.Double
