/-
  The numbers at which a colour map is sampled. Each is rounded several times on its way from the
  lower end, but no rounding turns the order about, so the numbers never decrease
  (`Ends.pointAt_le_pointAt`). The first one is the lower end (`Ends.pointAt_zero_beq`).

  The last one is the lower end with the distance added (`Ends.pointAt_last`). This is the upper
  end if the distance is not rounded (`Ends.standsFor_last`). Otherwise the last number may lie
  before the upper end or behind it: from -0.3 to 0.1 it lies behind
  (`exists_samplePoints_beyond_max`). `samplePoints_span` puts all this together.
-/
import Colourway.Command.Request
import Colourway.Command.Sample
import Colourway.Proofs.Double.Distance

namespace Colourway.Command

open Double

variable {min max : Float} {a b : ℚ} {n i j : ℕ}

/-! ## Shares of the way -/

/-- The share of the first `i` of `n` steps, as it is computed. -/
def share (n i : ℕ) : ℚ := nearest (nearest i / nearest n)

theorem share_zero (n : ℕ) : share n 0 = 0 := by
  rw [share, Nat.cast_zero, nearest_zero, zero_div, nearest_zero]

theorem share_self (hn : 0 < n) : share n n = 1 := by
  rw [share, div_self (nearest_natCast_pos hn).ne', nearest_of_representable representable_one]

theorem share_mono (hij : i ≤ j) : share n i ≤ share n j :=
  nearest_mono (div_le_div_of_nonneg_right (nearest_mono (Nat.cast_le.2 hij))
    (nearest_nonneg n.cast_nonneg))

theorem share_mem (hn : 0 < n) (hi : i ≤ n) : share n i ∈ Set.Icc 0 1 :=
  ⟨(share_zero n).symm.trans_le (share_mono i.zero_le), (share_mono hi).trans_eq (share_self hn)⟩

theorem standsFor_share (hn : 0 < n) (hlt : n < 2 ^ 64) (hi : i ≤ n) :
    StandsFor (Whole.toFloat i / Whole.toFloat n) (share n i) := by
  have hmem := share_mem hn hi
  refine (standsFor_toFloat_nearest (hi.trans_lt hlt)).div (standsFor_toFloat_nearest hlt)
    (nearest_natCast_pos hn).ne' ?_
  rw [← share, abs_of_nonneg hmem.1]
  exact hmem.2.trans_lt ((le_abs_self 1).trans_lt standsFor_one.abs_lt)

/-! ## Points -/

/-- The number after `i` of `n` steps. -/
def pointAt (min max : Float) (n i : ℕ) : Float :=
  min + (max - min) * (Whole.toFloat i / Whole.toFloat n)

/-- Two finite ends, in order, with a finite distance. -/
structure Ends (min max : Float) (a b : ℚ) : Prop where
  lower : StandsFor min a
  upper : StandsFor max b
  le : a ≤ b
  isFinite_width : (max - min).isFinite = true

namespace Ends

theorem width (h : Ends min max a b) : StandsFor (max - min) (nearest (b - a)) :=
  h.upper.sub_of_isFinite h.lower h.isFinite_width

theorem width_nonneg (h : Ends min max a b) : 0 ≤ nearest (b - a) :=
  nearest_nonneg (sub_nonneg.2 h.le)

theorem roundsTo_pointAt (h : Ends min max a b) (hn : 0 < n) (hlt : n < 2 ^ 64) (hi : i ≤ n) :
    RoundsTo (pointAt min max n i) (partWay a (nearest (b - a)) (share n i)) :=
  h.lower.roundsTo_partWay h.width (standsFor_share hn hlt hi) h.width_nonneg (share_mem hn hi)

theorem pointAt_le_pointAt (h : Ends min max a b) (hn : 0 < n) (hlt : n < 2 ^ 64) (hij : i ≤ j)
    (hj : j ≤ n) : pointAt min max n i ≤ pointAt min max n j :=
  (h.roundsTo_pointAt hn hlt (hij.trans hj)).le (h.roundsTo_pointAt hn hlt hj)
    (partWay_mono h.width_nonneg (share_mono hij))

/-- The lower end, but for the sign of zero. -/
theorem pointAt_zero_beq (h : Ends min max a b) (hn : 0 < n) (hlt : n < 2 ^ 64) :
    (pointAt min max n 0 == min) = true := by
  have hfirst := h.roundsTo_pointAt hn hlt n.zero_le
  rw [share_zero, partWay_zero h.lower.representable] at hfirst
  exact ((hfirst.standsFor_of_abs_lt h.lower.abs_lt).beq_iff h.lower).2 rfl

theorem le_pointAt (h : Ends min max a b) (hn : 0 < n) (hlt : n < 2 ^ 64) (hi : i ≤ n) :
    min ≤ pointAt min max n i := by
  refine RoundsTo.le (.finite h.lower) (h.roundsTo_pointAt hn hlt hi) ?_
  calc a = partWay a (nearest (b - a)) 0 := (partWay_zero h.lower.representable).symm
    _ ≤ partWay a (nearest (b - a)) (share n i) := partWay_mono h.width_nonneg (share_mem hn hi).1

/-! ## The last point -/

theorem pointAt_last (h : Ends min max a b) (hn : 0 < n) (hlt : n < 2 ^ 64) :
    pointAt min max n n = min + (max - min) := by
  rw [pointAt, Whole.toFloat_div_self hn hlt, h.width.mul_one_eq]

theorem pointAt_le_last (h : Ends min max a b) (hn : 0 < n) (hlt : n < 2 ^ 64) (hi : i ≤ n) :
    pointAt min max n i ≤ min + (max - min) :=
  (h.pointAt_le_pointAt hn hlt hi le_rfl).trans_eq (h.pointAt_last hn hlt)

theorem roundsTo_last (h : Ends min max a b) :
    RoundsTo (min + (max - min)) (nearest (a + nearest (b - a))) := h.lower.roundsTo_add h.width

/-- The upper end, if the distance is not rounded. -/
theorem standsFor_last (h : Ends min max a b) (hexact : Representable (b - a)) :
    StandsFor (min + (max - min)) b := by
  have hlast := h.roundsTo_last
  rw [nearest_add_nearest_sub h.upper.representable hexact] at hlast
  exact hlast.standsFor_of_abs_lt h.upper.abs_lt

/-- If neither end is more than twice the other, the distance is not rounded. -/
theorem representable_width (h : Ends min max a b) (hnear : b ≤ 2 * a ∨ 2 * b ≤ a) :
    Representable (b - a) := by
  rcases hnear with hpos | hneg
  · exact h.lower.representable.sub_of_le_two_mul h.upper.representable h.le hpos
  · exact h.lower.representable.sub_of_two_mul_le h.upper.representable h.le hneg

/-- The rounding of the distance comes in twice at most. -/
theorem abs_last_sub_le (h : Ends min max a b) :
    |nearest (a + nearest (b - a)) - b| ≤ 2 ^ (-52 : ℤ) * (b - a) := by
  have hoff := abs_nearest_add_nearest_sub_le h.lower.representable h.upper.representable
  rwa [abs_of_nonneg (sub_nonneg.2 h.le)] at hoff

/-- If the last point does not exceed the upper end, none does. -/
theorem pointAt_le_max (h : Ends min max a b) (hn : 0 < n) (hlt : n < 2 ^ 64) (hi : i ≤ n)
    (hlast : min + (max - min) ≤ max) : pointAt min max n i ≤ max := by
  rw [(h.roundsTo_pointAt hn hlt hi).le_iff h.upper]
  calc partWay a (nearest (b - a)) (share n i)
      ≤ partWay a (nearest (b - a)) 1 := partWay_mono h.width_nonneg (share_mem hn hi).2
    _ = nearest (a + nearest (b - a)) := partWay_one h.width.representable
    _ ≤ b := (h.roundsTo_last.le_iff h.upper).1 hlast

end Ends

/-! ## All points -/

theorem samplePoints_eq (min max : Float) (n : ℕ) :
    samplePoints min max (n + 2) = (List.range (n + 2)).map (pointAt min max (n + 1)) := rfl

theorem length_samplePoints (min max : Float) (n : ℕ) :
    (samplePoints min max (n + 2)).length = n + 2 := by
  rw [samplePoints_eq, List.length_map, List.length_range]

theorem head?_samplePoints (min max : Float) (n : ℕ) :
    (samplePoints min max (n + 2)).head? = some (pointAt min max (n + 1) 0) := by
  rw [samplePoints_eq, List.head?_map, List.head?_range, if_neg (by omega), Option.map_some]

theorem getLast?_samplePoints (min max : Float) (n : ℕ) :
    (samplePoints min max (n + 2)).getLast? = some (pointAt min max (n + 1) (n + 1)) := by
  rw [samplePoints_eq, List.getLast?_map, List.getLast?_range, if_neg (by omega), Option.map_some]
  rfl

theorem exists_pointAt_of_mem {x : Float} (hx : x ∈ samplePoints min max (n + 2)) :
    ∃ i ≤ n + 1, pointAt min max (n + 1) i = x := by
  rw [samplePoints_eq, List.mem_map] at hx
  obtain ⟨i, hi, hpoint⟩ := hx
  exact ⟨i, Nat.le_of_lt_succ (List.mem_range.1 hi), hpoint⟩

namespace Ends

theorem pairwise_samplePoints (h : Ends min max a b) (hlt : n + 1 < 2 ^ 64) :
    (samplePoints min max (n + 2)).Pairwise (· ≤ ·) := by
  rw [samplePoints_eq, List.pairwise_map]
  refine List.pairwise_lt_range.imp_of_mem fun _ hj hij => ?_
  exact h.pointAt_le_pointAt n.succ_pos hlt hij.le (Nat.le_of_lt_succ (List.mem_range.1 hj))

theorem getLast?_eq (h : Ends min max a b) (hlt : n + 1 < 2 ^ 64) :
    (samplePoints min max (n + 2)).getLast? = some (min + (max - min)) := by
  rw [getLast?_samplePoints, h.pointAt_last n.succ_pos hlt]

theorem between_of_mem (h : Ends min max a b) (hlt : n + 1 < 2 ^ 64) {x : Float}
    (hx : x ∈ samplePoints min max (n + 2)) : min ≤ x ∧ x ≤ min + (max - min) := by
  obtain ⟨i, hi, rfl⟩ := exists_pointAt_of_mem hx
  exact ⟨h.le_pointAt n.succ_pos hlt hi, h.pointAt_le_last n.succ_pos hlt hi⟩

theorem forall_le_max_iff (h : Ends min max a b) (hlt : n + 1 < 2 ^ 64) :
    (∀ x ∈ samplePoints min max (n + 2), x ≤ max) ↔ min + (max - min) ≤ max := by
  constructor
  · exact fun hall => hall _ (List.mem_of_getLast? (h.getLast?_eq hlt))
  · intro hlast x hx
    obtain ⟨i, hi, rfl⟩ := exists_pointAt_of_mem hx
    exact h.pointAt_le_max n.succ_pos hlt hi hlast

end Ends

/-- Between finite ends with a finite distance, the points are as many as are asked for, they
never decrease, they start with the lower end, and the last one is the lower end with the distance
added. So none exceeds the upper end if this one does not. It is computed for a number that is off
the upper end by no more than the distance over `2^52`. If the distance is not rounded, as where
neither end is more than twice the other, it is the upper end. -/
theorem samplePoints_span (min max : Float) (steps : ℕ) (hmin : min.isFinite = true)
    (hmax : max.isFinite = true) (hle : min ≤ max) (hwidth : (max - min).isFinite = true)
    (hsteps : 2 ≤ steps) (hmost : steps ≤ maxSteps) :
    let points := samplePoints min max steps
    let last := min + (max - min)
    points.length = steps ∧ points.Pairwise (· ≤ ·) ∧
    (∃ first ∈ points.head?, (first == min) = true) ∧ points.getLast? = some last ∧
    (∀ x ∈ points, min ≤ x ∧ x ≤ last) ∧ ((∀ x ∈ points, x ≤ max) ↔ last ≤ max) ∧
    (∃ q, RoundsTo last q ∧ |q - value max| ≤ 2 ^ (-52 : ℤ) * (value max - value min)) ∧
    (Representable (value max - value min) ∨ value max ≤ 2 * value min ∨
        2 * value max ≤ value min →
      (last == max) = true ∧ ∀ x ∈ points, x ≤ max) := by
  intro points last
  have hlower := standsFor_value hmin
  have hupper := standsFor_value hmax
  have h : Ends min max (value min) (value max) :=
    ⟨hlower, hupper, (hlower.le_iff hupper).1 hle, hwidth⟩
  obtain ⟨n, rfl⟩ := Nat.exists_eq_add_of_le' hsteps
  have hlt : n + 1 < 2 ^ 64 := by
    unfold maxSteps at hmost
    omega
  refine ⟨length_samplePoints min max n, h.pairwise_samplePoints hlt,
    ⟨_, head?_samplePoints min max n, h.pointAt_zero_beq n.succ_pos hlt⟩, h.getLast?_eq hlt,
    fun x hx => h.between_of_mem hlt hx, h.forall_le_max_iff hlt,
    ⟨_, h.roundsTo_last, h.abs_last_sub_le⟩, fun hexact => ?_⟩
  have hlast := h.standsFor_last (hexact.elim id h.representable_width)
  exact ⟨(hlast.beq_iff hupper).2 rfl,
    (h.forall_le_max_iff hlt).2 ((hlast.le_iff hupper).2 le_rfl)⟩

/-- Five points from 2 to 10, two apart. -/
theorem samplePoints_span_two_to_ten :
    let points := samplePoints 2 10 5
    (2 : Float) ≤ 10 ∧ Representable (value 10 - value 2) ∧ points.length = 5 ∧
      points.Pairwise (· ≤ ·) ∧ points.getLast? = some (2 + (10 - 2)) ∧
      (2 + (10 - 2 : Float) == 10) = true ∧ ∀ x ∈ points, 2 ≤ x ∧ x ≤ 10 := by
  intro points
  have hle : (2 : Float) ≤ 10 := by decide +kernel
  have htwo : (2 : Float) = Whole.toFloat 2 := by decide +kernel
  have hten : (10 : Float) = Whole.toFloat 10 := by decide +kernel
  have hwidth : Representable (value 10 - value 2) := by
    rw [hten, htwo, (standsFor_toFloat (n := 10) (by norm_num)).value_eq,
      (standsFor_toFloat (n := 2) (by norm_num)).value_eq]
    have hrep := representable_natCast (n := 8) (by norm_num)
    norm_num at hrep ⊢
    exact hrep
  obtain ⟨hlength, hpairwise, -, hlast, hbetween, -, -, hexact⟩ :=
    samplePoints_span 2 10 5 (by decide +kernel) (by decide +kernel) hle (by decide +kernel)
      (by decide) (by decide)
  obtain ⟨hend, hbelow⟩ := hexact (.inl hwidth)
  exact ⟨hle, hwidth, hlength, hpairwise, hlast, hend,
    fun x hx => ⟨(hbetween x hx).1, hbelow x hx⟩⟩

/-- From -0.3 on, the distance to 0.1 leads beyond 0.1. -/
theorem exists_samplePoints_beyond_max :
    ∃ min max : Float, min = -0.3 ∧ max = 0.1 ∧ min.isFinite = true ∧ max.isFinite = true ∧
      min ≤ max ∧ (max - min).isFinite = true ∧
      ∃ last ∈ (samplePoints min max 2).getLast?, (last == max) = false ∧ max < last := by
  refine ⟨-0.3, 0.1, rfl, rfl, by decide +kernel, by decide +kernel, by decide +kernel,
    by decide +kernel, _, getLast?_samplePoints _ _ 0, by decide +kernel, by decide +kernel⟩

end Colourway.Command
