/-
  Computations that may leave the range of doubles. `RoundsTo x q` says that a computation of
  the number `q` ends in `x`: a double that stands for it, or the infinite one on its side. One
  sum, difference or quotient of finite doubles is told in this way without any condition on its
  size (`StandsFor.roundsTo_add`, `roundsTo_sub`, `roundsTo_div`). Outcomes compare like the
  numbers they come from (`RoundsTo.le`). Cutting off the outcome forgets
  the difference: what is out of range of doubles is also out of range of what it is held to
  (`RoundsTo.toNat_toUInt8`, `RoundsTo.ofFloat_floor`).

  Not so where a divisor is rounded to zero. There the sign of this zero decides, and a quotient
  of positive doubles has the positive one (`StandsFor.div_eq_zero`).
-/
import Colourway.Proofs.Double.NotFinite
import Colourway.Proofs.Number.Exact

namespace Colourway.Double

open Float.Model Float.Model.UnpackedFloat

variable {x y : Float} {p q : ℚ}

/-- What a computation of a number ends in: a double that stands for it, or else, where the
number is out of range, an infinite one. -/
inductive RoundsTo : Float → ℚ → Prop where
  | finite {x : Float} {q : ℚ} : StandsFor x q → RoundsTo x q
  | above {q : ℚ} : 2 ^ (1024 : ℤ) ≤ q → RoundsTo (infinite .positive) q
  | below {q : ℚ} : q ≤ -2 ^ (1024 : ℤ) → RoundsTo (infinite .negative) q

theorem roundsTo_pack {u : UnpackedFloat} (hu : Canonical u) :
    RoundsTo (.ofModel (.pack u)) (unpackedValue u) := by
  rcases lt_or_ge |unpackedValue u| (2 ^ (1024 : ℤ)) with hlt | hle
  · exact .finite (standsFor_pack hu hlt)
  · cases hu using Canonical.zero_or_finite with
    | zero s =>
      have hzero : |unpackedValue (.zero s)| = 0 := abs_zero
      exact absurd (hzero ▸ hle) (not_le.2 (two_zpow_pos _))
    | finite s m e hm hu =>
      rw [unpackedValue, abs_signed (by positivity)] at hle
      have hpack : Float.ofModel (.pack (.finite s m e hm)) = infinite s := by
        unfold infinite Float.Model.pack
        congr 2
        exact congrArg UInt64.ofBitVec (pack_of_le hu hle)
      rw [hpack]
      cases s with
      | positive => exact .above hle
      | negative => exact .below (neg_le_neg hle)

theorem StandsFor.roundsTo_add (hx : StandsFor x p) (hy : StandsFor y q) :
    RoundsTo (x + y) (nearest (p + q)) := by
  obtain ⟨hvalue, hcanon⟩ := add_unpacked hx.canonical hy.canonical
  rw [hx.unpackedValue_eq, hy.unpackedValue_eq] at hvalue
  exact hvalue ▸ roundsTo_pack hcanon

theorem StandsFor.roundsTo_sub (hx : StandsFor x p) (hy : StandsFor y q) :
    RoundsTo (x - y) (nearest (p - q)) := by
  obtain ⟨hvalue, hcanon⟩ := sub_unpacked hx.canonical hy.canonical
  rw [hx.unpackedValue_eq, hy.unpackedValue_eq] at hvalue
  exact hvalue ▸ roundsTo_pack hcanon

theorem StandsFor.roundsTo_mul (hx : StandsFor x p) (hy : StandsFor y q) :
    RoundsTo (x * y) (nearest (p * q)) := by
  obtain ⟨hvalue, hcanon⟩ := mul_unpacked hx.canonical hy.canonical
  rw [hx.unpackedValue_eq, hy.unpackedValue_eq] at hvalue
  exact hvalue ▸ roundsTo_pack hcanon

theorem StandsFor.roundsTo_div (hx : StandsFor x p) (hy : StandsFor y q) (hq : q ≠ 0) :
    RoundsTo (x / y) (nearest (p / q)) := by
  obtain ⟨hvalue, hcanon⟩ :=
    div_unpacked hx.canonical hy.canonical (hy.unpackedValue_eq ▸ hq)
  rw [hx.unpackedValue_eq, hy.unpackedValue_eq] at hvalue
  exact hvalue ▸ roundsTo_pack hcanon

theorem RoundsTo.standsFor (hx : RoundsTo x q) (h : x.isFinite = true) : StandsFor x q := by
  cases hx with
  | finite hx => exact hx
  | above hle => exact absurd h (by decide)
  | below hle => exact absurd h (by decide)

theorem RoundsTo.standsFor_of_abs_lt (hx : RoundsTo x q) (h : |q| < 2 ^ (1024 : ℤ)) :
    StandsFor x q := by
  obtain ⟨hlow, hhigh⟩ := abs_lt.1 h
  cases hx with
  | finite hx => exact hx
  | above hle => exact absurd hle (not_le.2 hhigh)
  | below hle => exact absurd hle (not_le.2 hlow)

/-! ## Comparing -/

theorem RoundsTo.le_iff (hx : RoundsTo x p) (hy : StandsFor y q) : x ≤ y ↔ p ≤ q := by
  obtain ⟨hlow, hhigh⟩ := abs_lt.1 hy.abs_lt
  cases hx with
  | finite hx => exact hx.le_iff hy
  | above hp =>
    exact iff_of_false (fun h => nomatch (hy.infinite_le_iff _).1 h) (not_le.2 (hhigh.trans_le hp))
  | below hp => exact iff_of_true ((hy.infinite_le_iff _).2 rfl) (hp.trans hlow.le)

/-- Outcomes are in the order of what was computed. -/
theorem RoundsTo.le (hx : RoundsTo x p) (hy : RoundsTo y q) (h : p ≤ q) : x ≤ y := by
  have hwide : -(2 : ℚ) ^ (1024 : ℤ) < 2 ^ (1024 : ℤ) := neg_lt_self (two_zpow_pos _)
  cases hy with
  | finite hy => exact (hx.le_iff hy).2 h
  | above hq =>
    cases hx with
    | finite hx => exact (hx.le_infinite_iff _).2 rfl
    | above hp => decide
    | below hp => decide
  | below hq =>
    cases hx with
    | finite hx => exact absurd (h.trans hq) (not_le.2 (abs_lt.1 hx.abs_lt).1)
    | above hp => exact absurd ((hp.trans h).trans hq) (not_le.2 hwide)
    | below hp => decide

/-! ## Cutting off -/

/-- The numbers that doubles are cut off to are all in the range of doubles. -/
theorem natCast_le_range {n : ℕ} (hn : n ≤ 2 ^ 64) : (n : ℚ) ≤ 2 ^ (1024 : ℤ) := by
  have h64 : (n : ℚ) ≤ 2 ^ (64 : ℤ) := by exact_mod_cast hn
  exact h64.trans (zpow_le_zpow_right₀ one_le_two (by norm_num))

theorem RoundsTo.toNat_toUInt8 (hx : RoundsTo x q) : x.toUInt8.toNat = min ⌊q⌋.toNat 255 := by
  cases hx with
  | finite hx => exact Double.toNat_toUInt8 hx
  | above hle =>
    have hfloor : 255 ≤ ⌊q⌋ :=
      Int.le_floor.2 ((natCast_le_range (n := 255) (by norm_num)).trans hle)
    have hmost : (infinite .positive).toUInt8.toNat = 255 := rfl
    omega
  | below hle =>
    have hfloor : ⌊q⌋ ≤ 0 := Int.floor_nonpos (hle.trans (neg_nonpos.2 (two_zpow_pos _).le))
    have hleast : (infinite .negative).toUInt8.toNat = 0 := rfl
    omega

theorem RoundsTo.ofFloat_floor (hx : RoundsTo x q) :
    Whole.ofFloat (Whole.floor x) = max Whole.least (min ⌊q⌋ Whole.greatest) := by
  cases hx with
  | finite hx => exact hx.floor.ofFloat_eq
  | above hle =>
    have hfloor : Whole.greatest ≤ ⌊q⌋ :=
      Int.le_floor.2 ((natCast_le_range (n := 2 ^ 63 - 1) (by norm_num)).trans hle)
    have hmost : Whole.ofFloat (Whole.floor (infinite .positive)) = Whole.greatest := rfl
    unfold Whole.least Whole.greatest at *
    omega
  | below hle =>
    have hwide : -(2 ^ (1024 : ℤ)) ≤ (Whole.least : ℚ) := by
      have hleast : (Whole.least : ℚ) = -(2 ^ 63 : ℕ) := by unfold Whole.least; norm_num
      rw [hleast]
      exact neg_le_neg (natCast_le_range (by norm_num))
    have hfloor : ⌊q⌋ ≤ Whole.least :=
      Int.floor_le_iff.2 ((hle.trans hwide).trans_lt (lt_add_one _))
    have hleast : Whole.ofFloat (Whole.floor (infinite .negative)) = Whole.least := rfl
    unfold Whole.least Whole.greatest at *
    omega

/-- A double that reaches a whole number is cut off to this number or more. -/
theorem StandsFor.le_ofFloat_floor {n : ℤ} (hy : StandsFor y n) (hn : n ≤ Whole.greatest)
    (h : y ≤ x) : n ≤ Whole.ofFloat (Whole.floor x) := by
  by_cases hx : x.isFinite = true
  · have hfloor : n ≤ ⌊value x⌋ := Int.le_floor.2 ((hy.le_iff (standsFor_value hx)).1 h)
    rw [(standsFor_value hx).floor.ofFloat_eq]
    omega
  · rcases eq_nan_or_infinite (Bool.eq_false_iff.2 hx) with rfl | ⟨s, rfl⟩
    · exact absurd h hy.not_le_nan
    · obtain rfl := (hy.le_infinite_iff s).1 h
      have hmost : Whole.ofFloat (Whole.floor (infinite .positive)) = Whole.greatest := rfl
      rwa [hmost]

/-- No outcome is what is no number. -/
theorem RoundsTo.beq_self (hx : RoundsTo x q) : (x == x) = true := by
  cases hx with
  | finite hx => exact (hx.beq_iff hx).2 rfl
  | above hle => decide
  | below hle => decide

/-! ## Quotients -/

/-- What is infinite stays so over a positive double. -/
theorem StandsFor.infinite_div (hy : StandsFor y q) (hq : 0 < q) (s : Sign) :
    infinite s / y = infinite s := by
  obtain ⟨m, e, hm, hu⟩ := hy.exists_unpack_of_pos hq
  have hdiv : infinite s / y = .ofModel (.pack (UnpackedFloat.div .binary64
    (infinite s).toModel.unpack y.toModel.unpack)) := rfl
  rw [hdiv, unpack_infinite, hu]
  cases s <;> rfl

/-- Rounding keeps the sign, that of zero too. -/
theorem roundWithAccuracy_eq_or (s : Sign) (m : ℕ) (e : ℤ) (acc : Accuracy) :
    roundWithAccuracy .binary64 s m e acc = .zero s ∨
      ∃ n f hn, roundWithAccuracy .binary64 s m e acc = .finite s n f hn := by
  unfold roundWithAccuracy
  dsimp only
  split_ifs with h
  · exact .inl rfl
  · exact .inr ⟨_, _, Nat.pos_of_ne_zero h, rfl⟩

/-- A quotient of positive doubles that is rounded to zero is the positive zero. -/
theorem StandsFor.div_eq_zero (hx : StandsFor x p) (hp : 0 < p) (hy : StandsFor y q) (hq : 0 < q)
    (h : nearest (p / q) = 0) : x / y = 0 := by
  obtain ⟨m, e, hm, hu⟩ := hx.exists_unpack_of_pos hp
  obtain ⟨n, f, hn, hv⟩ := hy.exists_unpack_of_pos hq
  have hvalue := (div_unpacked hx.canonical hy.canonical (hy.unpackedValue_eq ▸ hq.ne')).1
  rw [hx.unpackedValue_eq, hy.unpackedValue_eq, h] at hvalue
  have hdiv : x / y = .ofModel (.pack (UnpackedFloat.div .binary64 x.toModel.unpack
    y.toModel.unpack)) := rfl
  rw [hdiv]
  rw [hu, hv] at hvalue ⊢
  have hsign := roundWithAccuracy_eq_or (.positive / .positive) (divCore .binary64 m e n f).1
    (divCore .binary64 m e n f).2.1 (divCore .binary64 m e n f).2.2
  rcases hsign with hzero | ⟨k, place, hk, hfinite⟩
  · exact congrArg (fun u => Float.ofModel (.pack u)) hzero
  · have hpos : (0 : ℚ) < k * 2 ^ place := mul_pos (Nat.cast_pos.2 hk) (two_zpow_pos place)
    exact absurd ((congrArg unpackedValue hfinite).symm.trans hvalue) hpos.ne'

/-- What is below zero, over what is not, is not cut off to a positive number, even over the
positive zero. -/
theorem RoundsTo.ofFloat_floor_div_nonpos (hx : RoundsTo x p) (hp : p < 0)
    (hy : y = 0 ∨ ∃ q, StandsFor y q ∧ 0 < q) : Whole.ofFloat (Whole.floor (x / y)) ≤ 0 := by
  -- an infinite quotient can only be the negative one
  have hbelow : x / y = infinite .negative → Whole.ofFloat (Whole.floor (x / y)) ≤ 0 := by
    intro h
    rw [h]
    decide
  have hdiv : x / y = .ofModel (.pack (UnpackedFloat.div .binary64 x.toModel.unpack
    y.toModel.unpack)) := rfl
  cases hx with
  | finite hx =>
    rcases hy with rfl | ⟨q, hy, hq⟩
    · obtain ⟨m, e, hm, hu⟩ := hx.exists_unpack_of_neg hp
      exact hbelow (by rw [hdiv, hu]; rfl)
    · have hquot := nearest_le representable_zero (div_neg_of_neg_of_pos hp hq).le
      have hfloor := Int.floor_nonpos hquot
      rw [(hx.roundsTo_div hy hq.ne').ofFloat_floor]
      unfold Whole.least
      omega
  | above hle => exact absurd (hp.trans_le' hle) (not_lt.2 (two_zpow_pos _).le)
  | below hle =>
    rcases hy with rfl | ⟨q, hy, hq⟩
    · exact hbelow (by rw [hdiv, unpack_infinite]; rfl)
    · exact hbelow (hy.infinite_div hq .negative)

/-! ## Finite outcomes -/

theorem isFinite_of_mul (h : (x * y).isFinite = true) : x.isFinite = true := by
  have hmul : (UnpackedFloat.mul .binary64 x.toModel.unpack y.toModel.unpack).isFinite = true :=
    isFinite_of_pack h
  have hgoal : x.isFinite = x.toModel.unpack.isFinite := rfl
  rw [hgoal]
  generalize x.toModel.unpack = u, y.toModel.unpack = v at hmul ⊢
  cases u with
  | notANumber => exact hmul
  | infinity s => cases v <;> exact hmul
  | _ => rfl

theorem isFinite_of_div (h : (x / y).isFinite = true) : x.isFinite = true := by
  have hdiv : (UnpackedFloat.div .binary64 x.toModel.unpack y.toModel.unpack).isFinite = true :=
    isFinite_of_pack h
  have hgoal : x.isFinite = x.toModel.unpack.isFinite := rfl
  rw [hgoal]
  generalize x.toModel.unpack = u, y.toModel.unpack = v at hdiv ⊢
  cases u with
  | notANumber => exact hdiv
  | infinity s => cases v <;> exact hdiv
  | _ => rfl

end Colourway.Double
