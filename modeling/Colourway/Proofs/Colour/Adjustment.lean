/-
  Adjustments made many times over. Each works on the channels one by one (`apply_eq`) and
  comes to rest: what is left after eight times, a further time does not change
  (`apply_iterate_limit`), for eight halvings use a byte up. So an adjustment may be made as
  often as told, or only up to the eighth time (`applyTimes_min`).
-/
import Mathlib
import Colourway.Recipe.Draft

namespace Colourway.Adjustment

/-- What an adjustment does to red, green and blue. -/
def tint : Adjustment → UInt8 → UInt8
  | .light, x => x / 2 + 128
  | .dark, x => x / 2
  | _, x => x

/-- What an adjustment does to the cover. -/
def cover : Adjustment → UInt8 → UInt8
  | .transparent, _ => 0
  | .translucent, x => x / 2
  | .solid, x => if x < 128 then 2 * x else 255
  | _, x => x

theorem apply_eq (m : Adjustment) (c : Colour) :
    m.apply c = ⟨m.tint c.r, m.tint c.g, m.tint c.b, m.cover c.a⟩ := by
  cases m <;> rfl

theorem iterate_apply (m : Adjustment) (n : Nat) (c : Colour) :
    m.apply^[n] c = ⟨m.tint^[n] c.r, m.tint^[n] c.g, m.tint^[n] c.b, m.cover^[n] c.a⟩ := by
  induction n generalizing c with
  | zero => rfl
  | succ n ih =>
    rw [Function.iterate_succ_apply, apply_eq, ih]
    rfl

theorem applyTimes_eq_iterate (m : Adjustment) (n : Nat) (c : Colour) :
    m.applyTimes n c = m.apply^[n] c := by
  induction n generalizing c with
  | zero => rfl
  | succ n ih => rw [applyTimes, ih, Function.iterate_succ_apply]

/-! ## Coming to rest -/

theorem tint_iterate_eight (m : Adjustment) :
    ∀ x, m.tint (m.tint^[8] x) = m.tint^[8] x := by
  cases m <;> decide +kernel

theorem cover_iterate_eight (m : Adjustment) :
    ∀ x, m.cover (m.cover^[8] x) = m.cover^[8] x := by
  cases m <;> decide +kernel

theorem apply_iterate_limit (m : Adjustment) (c : Colour) :
    m.apply (m.apply^[Recipe.Draft.adjustmentLimit] c) =
      m.apply^[Recipe.Draft.adjustmentLimit] c := by
  have hlimit : Recipe.Draft.adjustmentLimit = 8 := rfl
  rw [apply_eq, iterate_apply, hlimit]
  simp only [tint_iterate_eight, cover_iterate_eight]

/-- Made eight times, an adjustment has done all it will ever do. -/
theorem applyTimes_min (m : Adjustment) (n : Nat) (c : Colour) :
    m.applyTimes (min n Recipe.Draft.adjustmentLimit) c = m.apply^[n] c := by
  rw [applyTimes_eq_iterate]
  rcases Nat.le_total n Recipe.Draft.adjustmentLimit with h | h
  · rw [Nat.min_eq_left h]
  · obtain ⟨k, hk⟩ := Nat.exists_eq_add_of_le' h
    rw [Nat.min_eq_right h, hk, Function.iterate_add_apply,
      Function.iterate_fixed (apply_iterate_limit m c)]

end Colourway.Adjustment
