/-
  Rounding to doubles, as a function on rational numbers.

  A rational number is rounded to the nearest multiple of a power of two, its last place
  (`lastPlace`): 53 binary digits are kept, and no place below `2^(-1074)`. A number half-way
  between two multiples goes to the even one. Numbers that fit are `Representable`; how large
  they may be is left out here.

  Rounding keeps what is representable (`nearest_of_representable`) and the order
  (`nearest_mono`), is odd (`nearest_neg`), and is off by half a place at most
  (`abs_nearest_sub_le`); no representable number is nearer than the one that is chosen
  (`abs_nearest_sub_le_of_representable`).
-/
import Mathlib

namespace Colourway.Double

/-! ## Whole numbers -/

/-- The nearest whole number; of two, the even one. -/
def roundHalfEven (x : ℚ) : ℤ :=
  if Int.fract x < 1 / 2 then ⌊x⌋
  else if 1 / 2 < Int.fract x then ⌊x⌋ + 1
  else ⌊x⌋ + ⌊x⌋ % 2

theorem roundHalfEven_intCast (n : ℤ) : roundHalfEven n = n := by
  rw [roundHalfEven, Int.fract_intCast, if_pos (by norm_num), Int.floor_intCast]

theorem abs_roundHalfEven_sub_le (x : ℚ) : |(roundHalfEven x : ℚ) - x| ≤ 1 / 2 := by
  have hx : (⌊x⌋ : ℚ) + Int.fract x = x := Int.floor_add_fract x
  have hnonneg := Int.fract_nonneg x
  have hlt := Int.fract_lt_one x
  rw [abs_le, roundHalfEven]
  split_ifs with hlow hhigh
  · constructor <;> linarith
  · push_cast
    constructor <;> linarith
  · rcases Int.emod_two_eq_zero_or_one ⌊x⌋ with h | h <;> rw [h] <;> push_cast <;>
      constructor <;> linarith

theorem roundHalfEven_mono {x y : ℚ} (h : x ≤ y) : roundHalfEven x ≤ roundHalfEven y := by
  -- otherwise they are one apart at least, and both numbers lie half-way in between
  by_contra hlt
  have hstep : (roundHalfEven y : ℚ) + 1 ≤ roundHalfEven x := by
    exact_mod_cast Int.add_one_le_iff.2 (not_le.1 hlt)
  have hx := abs_le.1 (abs_roundHalfEven_sub_le x)
  have hy := abs_le.1 (abs_roundHalfEven_sub_le y)
  have hxy : x = y := by linarith
  exact hlt (hxy ▸ le_rfl)

theorem le_roundHalfEven {n : ℤ} {x : ℚ} (h : (n : ℚ) ≤ x) : n ≤ roundHalfEven x :=
  roundHalfEven_intCast n ▸ roundHalfEven_mono h

theorem roundHalfEven_le {n : ℤ} {x : ℚ} (h : x ≤ n) : roundHalfEven x ≤ n :=
  roundHalfEven_intCast n ▸ roundHalfEven_mono h

/-- No whole number is nearer. -/
theorem abs_roundHalfEven_sub_le_abs (x : ℚ) (n : ℤ) :
    |(roundHalfEven x : ℚ) - x| ≤ |(n : ℚ) - x| := by
  by_cases hn : n = roundHalfEven x
  · rw [hn]
  · have hround := abs_roundHalfEven_sub_le x
    have hone : (1 : ℚ) ≤ |(n : ℚ) - roundHalfEven x| := by
      exact_mod_cast Int.one_le_abs (sub_ne_zero.2 hn)
    have htri := abs_sub_le (n : ℚ) x (roundHalfEven x)
    rw [abs_sub_comm x] at htri
    linarith

/-- Half-way to an even number is near enough, on both sides. -/
theorem roundHalfEven_eq_of_even {n : ℤ} {x : ℚ} (hn : Even n) (h : |x - n| ≤ 1 / 2) :
    roundHalfEven x = n := by
  have hfract := Int.floor_add_fract x
  have hmod := Int.even_iff.1 hn
  rw [abs_le] at h
  rcases le_or_gt (n : ℚ) x with hle | hlt
  · have hfloor : ⌊x⌋ = n := Int.floor_eq_iff.2 ⟨hle, by linarith⟩
    rw [hfloor] at hfract
    rw [roundHalfEven, hfloor, if_neg (by linarith : ¬1 / 2 < Int.fract x), hmod, add_zero, ite_self]
  · have hfloor : ⌊x⌋ = n - 1 :=
      Int.floor_eq_iff.2 ⟨by push_cast; linarith, by push_cast; linarith⟩
    rw [hfloor] at hfract
    push_cast at hfract
    rw [roundHalfEven, hfloor, if_neg (by linarith : ¬Int.fract x < 1 / 2)]
    split_ifs <;> omega

theorem roundHalfEven_neg (x : ℚ) : roundHalfEven (-x) = -roundHalfEven x := by
  by_cases hx : Int.fract x = 0
  · obtain ⟨n, rfl⟩ := Int.fract_eq_zero_iff.1 hx
    rw [← Int.cast_neg, roundHalfEven_intCast, roundHalfEven_intCast]
  · have hfract : Int.fract (-x) = 1 - Int.fract x := Int.fract_neg hx
    have hfloor : ⌊-x⌋ = -⌊x⌋ - 1 := by
      have h : (⌊-x⌋ : ℚ) = -⌊x⌋ - 1 := by
        have hneg : (⌊-x⌋ : ℚ) + Int.fract (-x) = -x := Int.floor_add_fract (-x)
        have hpos : (⌊x⌋ : ℚ) + Int.fract x = x := Int.floor_add_fract x
        linarith
      exact_mod_cast h
    rw [roundHalfEven, roundHalfEven, hfract, hfloor]
    split_ifs <;> first | omega | (exfalso; linarith)

/-! ## Places -/

theorem two_zpow_pos (e : ℤ) : (0 : ℚ) < 2 ^ e := by positivity

/-- The exponent of the last binary place that is kept of a number. -/
def lastPlace (q : ℚ) : ℤ := max (Int.log 2 |q| - 52) (-1074)

theorem lastPlace_neg (q : ℚ) : lastPlace (-q) = lastPlace q := by
  rw [lastPlace, abs_neg, ← lastPlace]

theorem le_lastPlace (q : ℚ) : -1074 ≤ lastPlace q := le_max_right _ _

theorem abs_lt_two_zpow (q : ℚ) : |q| < 2 ^ (lastPlace q + 53) := by
  have hlog : |q| < 2 ^ (Int.log 2 |q| + 1) := Int.lt_zpow_succ_log_self (by norm_num) |q|
  refine hlog.trans_le (zpow_le_zpow_right₀ (by norm_num) ?_)
  have hle : Int.log 2 |q| - 52 ≤ lastPlace q := le_max_left _ _
  omega

/-- The first of the places that are kept is used, unless the last one is the least of all. -/
theorem two_zpow_le_abs {q : ℚ} (hq : q ≠ 0) (h : lastPlace q ≠ -1074) :
    2 ^ (lastPlace q + 52) ≤ |q| := by
  have hlog : (2 : ℚ) ^ Int.log 2 |q| ≤ |q| :=
    Int.zpow_log_le_self (by norm_num) (abs_pos.2 hq)
  have hmax : lastPlace q = Int.log 2 |q| - 52 :=
    (max_choice (Int.log 2 |q| - 52) (-1074)).resolve_right h
  rwa [hmax, sub_add_cancel]

theorem lastPlace_le {q : ℚ} {e : ℤ} (he : -1074 ≤ e) (h : |q| < 2 ^ (e + 53)) (hq : q ≠ 0) :
    lastPlace q ≤ e := by
  have hlog : (2 : ℚ) ^ Int.log 2 |q| ≤ |q| :=
    Int.zpow_log_le_self (by norm_num) (abs_pos.2 hq)
  have hlt : Int.log 2 |q| < e + 53 :=
    (zpow_lt_zpow_iff_right₀ (by norm_num : (1 : ℚ) < 2)).1 (hlog.trans_lt h)
  exact max_le (by omega) he

theorem lastPlace_mono {p q : ℚ} (hp : p ≠ 0) (h : |p| ≤ |q|) : lastPlace p ≤ lastPlace q :=
  lastPlace_le (le_lastPlace q) (h.trans_lt (abs_lt_two_zpow q)) hp

theorem lastPlace_eq {q : ℚ} {e : ℤ} (he : -1074 ≤ e) (hlt : |q| < 2 ^ (e + 53)) (hq : q ≠ 0)
    (hle : e = -1074 ∨ 2 ^ (e + 52) ≤ |q|) : lastPlace q = e := by
  refine le_antisymm (lastPlace_le he hlt hq) ?_
  rcases hle with rfl | hle
  · exact le_lastPlace q
  · have hpow : (2 : ℚ) ^ (e + 52) < 2 ^ (lastPlace q + 53) := hle.trans_lt (abs_lt_two_zpow q)
    have := (zpow_lt_zpow_iff_right₀ (by norm_num : (1 : ℚ) < 2)).1 hpow
    omega

/-! ## Representable numbers -/

/-- The number has at most 53 binary digits, none below the least place. -/
def Representable (q : ℚ) : Prop := ∃ m e : ℤ, |m| < 2 ^ 53 ∧ -1074 ≤ e ∧ q = m * 2 ^ e

theorem Representable.neg {q : ℚ} (h : Representable q) : Representable (-q) := by
  obtain ⟨m, e, hm, he, rfl⟩ := h
  exact ⟨-m, e, by rwa [abs_neg], he, by push_cast; ring⟩

theorem representable_zero : Representable 0 := ⟨0, 0, by norm_num, by norm_num, by norm_num⟩

theorem representable_two_zpow {e : ℤ} (he : -1074 ≤ e) : Representable (2 ^ e) :=
  ⟨1, e, by norm_num, he, by norm_num⟩

/-- A power of two fits, be it one digit longer than the others. -/
theorem representable_mul_two_zpow {m e : ℤ} (hm : |m| ≤ 2 ^ 53) (he : -1074 ≤ e) :
    Representable (m * 2 ^ e) := by
  rcases hm.lt_or_eq with hm | hm
  · exact ⟨m, e, hm, he, rfl⟩
  · have hpow : ((2 ^ 53 : ℤ) : ℚ) * 2 ^ e = 2 ^ (53 + e) := by
      rw [zpow_add₀ (by norm_num)]
      norm_num
    have hr := representable_two_zpow (show -1074 ≤ 53 + e by omega)
    rcases abs_choice m with h | h
    · have hm53 : m = 2 ^ 53 := h ▸ hm
      rwa [hm53, hpow]
    · have hm53 : m = -2 ^ 53 := by omega
      rw [hm53, Int.cast_neg, neg_mul, hpow]
      exact hr.neg

theorem representable_intCast {n : ℤ} (hn : |n| ≤ 2 ^ 53) : Representable n := by
  have h := representable_mul_two_zpow hn (show (-1074 : ℤ) ≤ 0 by norm_num)
  rwa [zpow_zero, mul_one] at h

theorem representable_natCast {n : ℕ} (hn : n ≤ 2 ^ 53) : Representable n := by
  have h := representable_intCast (n := n) (by rw [Nat.abs_cast]; exact_mod_cast hn)
  rwa [Int.cast_natCast] at h

theorem representable_one : Representable 1 := by
  exact_mod_cast representable_natCast (n := 1) (by norm_num)

theorem representable_add_half {n : ℕ} (hn : n ≤ 2 ^ 51) : Representable (n + 1 / 2) := by
  have h := representable_mul_two_zpow (m := 2 * n + 1) (e := -1)
    (by rw [abs_of_nonneg (by omega)]; omega) (by norm_num)
  have hhalf : (((2 * n + 1 : ℤ) : ℚ) * 2 ^ (-1 : ℤ)) = n + 1 / 2 := by
    push_cast
    norm_num
    ring
  rwa [hhalf] at h

theorem Representable.mul_two_zpow {q : ℚ} (h : Representable q) {k : ℕ} :
    Representable (q * 2 ^ k) := by
  obtain ⟨m, e, hm, he, rfl⟩ := h
  refine ⟨m, e + k, hm, by omega, ?_⟩
  rw [zpow_add₀ (by norm_num), zpow_natCast, mul_assoc]

/-- A representable number that reaches the first place kept is a multiple of the last one. -/
theorem Representable.exists_eq_mul {r : ℚ} (hr : Representable r) {e : ℤ}
    (he : e = -1074 ∨ 2 ^ (e + 52) ≤ |r|) : ∃ n : ℤ, r = n * 2 ^ e := by
  obtain ⟨m, f, hm, hf, rfl⟩ := hr
  have hef : e ≤ f := by
    rcases he with rfl | he
    · exact hf
    · have hm : |(m : ℚ)| < 2 ^ (53 : ℤ) := by exact_mod_cast hm
      have hlt : |(m : ℚ) * 2 ^ f| < 2 ^ (f + 53) := by
        rw [abs_mul, abs_of_pos (two_zpow_pos f), add_comm f, zpow_add₀ (by norm_num)]
        exact mul_lt_mul_of_pos_right hm (two_zpow_pos f)
      have := (zpow_lt_zpow_iff_right₀ (by norm_num : (1 : ℚ) < 2)).1 (he.trans_lt hlt)
      omega
  obtain ⟨k, rfl⟩ := Int.le.dest hef
  refine ⟨m * 2 ^ k, ?_⟩
  rw [zpow_add₀ (by norm_num), zpow_natCast]
  push_cast
  ring

/-- Every double is a multiple of the last place of the lesser ones. -/
theorem Representable.exists_eq_mul_lastPlace {q r : ℚ} (hr : Representable r) (hq : q ≠ 0)
    (h : |q| ≤ |r|) : ∃ n : ℤ, r = n * 2 ^ lastPlace q :=
  hr.exists_eq_mul (or_iff_not_imp_left.2 fun hplace => (two_zpow_le_abs hq hplace).trans h)

/-! ## The nearest representable number -/

/-- The number rounded to its last place. -/
def nearest (q : ℚ) : ℚ := roundHalfEven (q / 2 ^ lastPlace q) * 2 ^ lastPlace q

theorem nearest_zero : nearest 0 = 0 := by
  rw [nearest, zero_div]
  have h := roundHalfEven_intCast 0
  rw [Int.cast_zero] at h
  rw [h, Int.cast_zero, zero_mul]

theorem nearest_neg (q : ℚ) : nearest (-q) = -nearest q := by
  rw [nearest, nearest, lastPlace_neg, neg_div, roundHalfEven_neg]
  push_cast
  ring

theorem abs_roundHalfEven_div_le (q : ℚ) : |roundHalfEven (q / 2 ^ lastPlace q)| ≤ 2 ^ 53 := by
  have hpos := two_zpow_pos (lastPlace q)
  have hlt := abs_lt_two_zpow q
  rw [add_comm, zpow_add₀ (by norm_num)] at hlt
  have habs : |q / 2 ^ lastPlace q| ≤ 2 ^ 53 := by
    rw [abs_div, abs_of_pos hpos, div_le_iff₀ hpos]
    exact_mod_cast hlt.le
  obtain ⟨hlow, hhigh⟩ := abs_le.1 habs
  exact abs_le.2 ⟨le_roundHalfEven (by push_cast; exact hlow),
    roundHalfEven_le (by push_cast; exact hhigh)⟩

theorem representable_nearest (q : ℚ) : Representable (nearest q) :=
  representable_mul_two_zpow (abs_roundHalfEven_div_le q) (le_lastPlace q)

theorem abs_mul_two_zpow_sub (q : ℚ) (m e : ℤ) :
    |m * 2 ^ e - q| = |(m : ℚ) - q / 2 ^ e| * 2 ^ e := by
  have hpos := two_zpow_pos e
  rw [← abs_of_pos hpos, ← abs_mul, abs_of_pos hpos, sub_mul, div_mul_cancel₀ _ hpos.ne']

/-- No multiple of the last place is nearer. -/
theorem abs_nearest_sub_le_of_multiple (q : ℚ) (n : ℤ) :
    |nearest q - q| ≤ |n * 2 ^ lastPlace q - q| := by
  rw [nearest, abs_mul_two_zpow_sub, abs_mul_two_zpow_sub]
  exact mul_le_mul_of_nonneg_right (abs_roundHalfEven_sub_le_abs _ n) (two_zpow_pos _).le

/-- No representable number is nearer. -/
theorem abs_nearest_sub_le_of_representable (q : ℚ) {r : ℚ} (hr : Representable r) :
    |nearest q - q| ≤ |r - q| := by
  by_cases hr' : lastPlace q = -1074 ∨ 2 ^ (lastPlace q + 52) ≤ |r|
  · obtain ⟨n, rfl⟩ := hr.exists_eq_mul hr'
    exact abs_nearest_sub_le_of_multiple q n
  · -- the number lies beyond the first place kept, and the other one does not reach it
    rw [not_or, not_le] at hr'
    obtain ⟨hplace, hr'⟩ := hr'
    by_cases hq : q = 0
    · rw [hq, nearest_zero, sub_zero, abs_zero]
      exact abs_nonneg _
    · have hbig := two_zpow_le_abs hq hplace
      have hpow : ((2 ^ 52 : ℤ) : ℚ) * 2 ^ lastPlace q = 2 ^ (lastPlace q + 52) := by
        rw [add_comm (lastPlace q), zpow_add₀ (by norm_num)]
        norm_num
      have hplus := abs_nearest_sub_le_of_multiple q (2 ^ 52)
      have hminus := abs_nearest_sub_le_of_multiple q (-2 ^ 52)
      rw [hpow] at hplus
      rw [Int.cast_neg, neg_mul, hpow] at hminus
      obtain ⟨hlow, hhigh⟩ := abs_lt.1 hr'
      rcases abs_cases q with ⟨habs, hsign⟩ | ⟨habs, hsign⟩
      · rw [abs_of_nonpos (by linarith : (2 : ℚ) ^ (lastPlace q + 52) - q ≤ 0)] at hplus
        rw [abs_of_neg (by linarith : r - q < 0)]
        linarith
      · rw [abs_of_nonneg (by linarith : 0 ≤ -(2 : ℚ) ^ (lastPlace q + 52) - q)] at hminus
        rw [abs_of_pos (by linarith : 0 < r - q)]
        linarith

theorem nearest_of_representable {q : ℚ} (hq : Representable q) : nearest q = q := by
  have h := abs_nearest_sub_le_of_representable q hq
  rw [sub_self, abs_zero] at h
  exact sub_eq_zero.1 (abs_nonpos_iff.1 h)

theorem nearest_mono {p q : ℚ} (h : p ≤ q) : nearest p ≤ nearest q := by
  -- otherwise each is no nearer to its own number than to that of the other one
  by_contra hlt
  have hp := abs_nearest_sub_le_of_representable p (representable_nearest q)
  have hq := abs_nearest_sub_le_of_representable q (representable_nearest p)
  have hpq : p = q := by
    grind
  exact hlt (hpq ▸ le_rfl)

theorem nearest_le {q r : ℚ} (hr : Representable r) (h : q ≤ r) : nearest q ≤ r :=
  nearest_of_representable hr ▸ nearest_mono h

theorem le_nearest {q r : ℚ} (hr : Representable r) (h : r ≤ q) : r ≤ nearest q :=
  nearest_of_representable hr ▸ nearest_mono h

theorem nearest_nonneg {q : ℚ} (h : 0 ≤ q) : 0 ≤ nearest q := le_nearest representable_zero h

theorem abs_nearest_le {q b : ℚ} (hb : Representable b) (h : |q| ≤ b) : |nearest q| ≤ b := by
  obtain ⟨hlow, hhigh⟩ := abs_le.1 h
  exact abs_le.2 ⟨le_nearest hb.neg hlow, nearest_le hb hhigh⟩

/-- Rounding does not bring a number of moderate size out of the range of doubles. -/
theorem abs_nearest_lt {q : ℚ} {n : ℤ} (hn : |n| ≤ 2 ^ 53) (h : |q| ≤ n) :
    |nearest q| < 2 ^ (1024 : ℤ) := by
  have hlt : (2 : ℚ) ^ (53 : ℤ) < 2 ^ (1024 : ℤ) := zpow_lt_zpow_right₀ one_lt_two (by norm_num)
  have hle : (n : ℚ) ≤ 2 ^ (53 : ℤ) := by exact_mod_cast (le_abs_self n).trans hn
  exact ((abs_nearest_le (representable_intCast hn) h).trans hle).trans_lt hlt

/-- Rounding does not lead beyond a multiple of a place that is kept. -/
theorem nearest_le_of_multiple {q : ℚ} {n e : ℤ} (he : lastPlace q ≤ e) (h : q ≤ n * 2 ^ e) :
    nearest q ≤ n * 2 ^ e := by
  obtain ⟨k, rfl⟩ := Int.le.dest he
  have hpos := two_zpow_pos (lastPlace q)
  have hsplit : (n : ℚ) * 2 ^ (lastPlace q + k) = (n * 2 ^ k : ℤ) * 2 ^ lastPlace q := by
    rw [zpow_add₀ (by norm_num), zpow_natCast]
    push_cast
    ring
  rw [hsplit] at h ⊢
  have hround := roundHalfEven_le ((div_le_iff₀ hpos).2 h)
  exact mul_le_mul_of_nonneg_right (Int.cast_le.2 hround) hpos.le

theorem le_nearest_of_multiple {q : ℚ} {n e : ℤ} (he : lastPlace q ≤ e) (h : n * 2 ^ e ≤ q) :
    n * 2 ^ e ≤ nearest q := by
  have hneg : -q ≤ (-n : ℤ) * 2 ^ e := by
    push_cast
    linarith
  have hle := nearest_le_of_multiple (q := -q) ((lastPlace_neg q).trans_le he) hneg
  rw [nearest_neg] at hle
  push_cast at hle
  linarith

/-! ## How far off -/

theorem abs_nearest_sub_le_half (q : ℚ) : |nearest q - q| ≤ 1 / 2 * 2 ^ lastPlace q := by
  rw [nearest, abs_mul_two_zpow_sub]
  exact mul_le_mul_of_nonneg_right (abs_roundHalfEven_sub_le _) (two_zpow_pos _).le

/-- Below a power of two, rounding is off by no more than half the last place there. -/
theorem abs_nearest_sub_le {q : ℚ} {k : ℤ} (hk : -1021 ≤ k) (h : |q| < 2 ^ k) :
    |nearest q - q| ≤ 2 ^ (k - 54) := by
  by_cases hq : q = 0
  · rw [hq, nearest_zero, sub_zero, abs_zero]
    exact (two_zpow_pos _).le
  · have hplace : lastPlace q ≤ k - 53 :=
      lastPlace_le (by omega) (by rwa [sub_add_cancel]) hq
    have hhalf : (2 : ℚ) ^ (k - 54) = 1 / 2 * 2 ^ (k - 53) := by
      have hsub : k - 53 = (k - 54) + 1 := by ring
      rw [hsub, zpow_add_one₀ (by norm_num)]
      ring
    rw [hhalf]
    exact (abs_nearest_sub_le_half q).trans
      (mul_le_mul_of_nonneg_left (zpow_le_zpow_right₀ (by norm_num) hplace) (by norm_num))

/-- Unless a number is very small, rounding changes it by no more than a part in `2^53`. -/
theorem abs_nearest_sub_le_mul {q : ℚ} (h : 2 ^ (-1022 : ℤ) ≤ |q|) :
    |nearest q - q| ≤ 2 ^ (-53 : ℤ) * |q| := by
  have hq : q ≠ 0 := abs_pos.1 ((two_zpow_pos _).trans_le h)
  have hbig : 2 ^ (lastPlace q + 52) ≤ |q| := by
    by_cases hplace : lastPlace q = -1074
    · rw [hplace]
      exact h
    · exact two_zpow_le_abs hq hplace
  have hhalf : (1 : ℚ) / 2 * 2 ^ lastPlace q = 2 ^ (-53 : ℤ) * 2 ^ (lastPlace q + 52) := by
    rw [← zpow_add₀ (by norm_num), show (-53 : ℤ) + (lastPlace q + 52) = lastPlace q - 1 by ring,
      zpow_sub_one₀ (by norm_num)]
    ring
  calc |nearest q - q| ≤ 1 / 2 * 2 ^ lastPlace q := abs_nearest_sub_le_half q
    _ = 2 ^ (-53 : ℤ) * 2 ^ (lastPlace q + 52) := hhalf
    _ ≤ 2 ^ (-53 : ℤ) * |q| := mul_le_mul_of_nonneg_left hbig (by positivity)

end Colourway.Double
