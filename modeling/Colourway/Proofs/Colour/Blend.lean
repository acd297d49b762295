/-
  Blends of two stops, channel by channel. Rounding puts a blended channel a little off the
  place between its two ends (`StandsFor.between`), by so little that it matters only next to a
  whole number. At the ratio 0 nothing is rounded away (`truncate_blend_zero`).
-/
import Colourway.Colour.Stop
import Colourway.Proofs.Number.Whole

namespace Colourway

/-- The channels of colours and stops. -/
inductive Channel where
  | red
  | green
  | blue
  | cover

namespace Channel

/-- The channel of a colour. -/
def ofColour : Channel → Colour → UInt8
  | .red, c => c.r
  | .green, c => c.g
  | .blue, c => c.b
  | .cover, c => c.a

/-- The channel of a stop. -/
def ofStop : Channel → Stop → Float
  | .red, s => s.r
  | .green, s => s.g
  | .blue, s => s.b
  | .cover, s => s.a

theorem ext {c c' : Colour} (h : ∀ k : Channel, k.ofColour c = k.ofColour c') : c = c' := by
  cases c
  cases c'
  exact Colour.mk.injEq .. ▸ ⟨h .red, h .green, h .blue, h .cover⟩

theorem ofColour_truncate (k : Channel) (s : Stop) :
    k.ofColour s.truncate = (k.ofStop s).toUInt8 := by
  cases k <;> rfl

theorem ofStop_blend (k : Channel) (s t : Stop) (ratio : Float) :
    k.ofStop (s.blend t ratio) = Stop.between (k.ofStop s) (k.ofStop t) ratio := by
  cases k <;> rfl

end Channel

namespace Double

variable {x y r : Float} {p q t : ℚ}

/-- How far rounding can put a blended channel off. -/
def blendError : ℚ := 2 ^ (-43 : ℤ)

theorem mul_mem_Icc {p s b : ℚ} (hp : p ∈ Set.Icc 0 b) (hs : s ∈ Set.Icc 0 1) :
    p * s ∈ Set.Icc 0 b :=
  ⟨mul_nonneg hp.1 hs.1, (mul_le_of_le_one_right hp.1 hs.2).trans hp.2⟩

/-- Rounding does not lead beyond a whole number of moderate size. -/
theorem nearest_mem {q b : ℚ} {n : ℕ} (hb : b = n) (hn : n ≤ 2 ^ 53) (h : q ∈ Set.Icc 0 b) :
    nearest q ∈ Set.Icc 0 b ∧ |nearest q| < 2 ^ (1024 : ℤ) := by
  have hint : |(n : ℤ)| ≤ 2 ^ 53 := by
    rw [Nat.abs_cast]
    exact_mod_cast hn
  have hcast : b = (n : ℤ) := by rw [hb, Int.cast_natCast]
  exact ⟨⟨nearest_nonneg h.1, hcast ▸ nearest_le (representable_intCast hint) (hcast ▸ h.2)⟩,
    abs_nearest_lt hint ((abs_of_nonneg h.1).trans_le (hcast ▸ h.2))⟩

theorem abs_nearest_sub_le_of_mem {q b : ℚ} {k : ℤ} (hk : -1021 ≤ k) (hb : b < 2 ^ k)
    (h : q ∈ Set.Icc 0 b) : |nearest q - q| ≤ 2 ^ (k - 54) :=
  abs_nearest_sub_le hk ((abs_of_nonneg h.1).trans_lt (h.2.trans_lt hb))

/-- The two parts of a blended channel, each rounded. -/
def parts (p q t : ℚ) : ℚ × ℚ := (nearest (p * nearest (1 - t)), nearest (q * t))

/-- The place between two channels, with the roundings of its computation. -/
def blended (p q t : ℚ) : ℚ := nearest ((parts p q t).1 + (parts p q t).2)

theorem one_sub_mem (ht : t ∈ Set.Icc 0 1) : 1 - t ∈ Set.Icc 0 1 :=
  ⟨sub_nonneg.2 ht.2, sub_le_self _ ht.1⟩

theorem mul_nearest_mem (hp : p ∈ Set.Icc 0 255) (ht : t ∈ Set.Icc 0 1) :
    p * nearest (1 - t) ∈ Set.Icc 0 255 :=
  mul_mem_Icc hp (nearest_mem (n := 1) (by norm_num) (by norm_num) (one_sub_mem ht)).1

theorem parts_mem (hp : p ∈ Set.Icc 0 255) (hq : q ∈ Set.Icc 0 255) (ht : t ∈ Set.Icc 0 1) :
    (parts p q t).1 + (parts p q t).2 ∈ Set.Icc 0 510 := by
  have hleft := (nearest_mem (n := 255) (by norm_num) (by norm_num) (mul_nearest_mem hp ht)).1
  have hright := (nearest_mem (n := 255) (by norm_num) (by norm_num) (mul_mem_Icc hq ht)).1
  exact ⟨add_nonneg hleft.1 hright.1, (add_le_add hleft.2 hright.2).trans (by norm_num)⟩

theorem StandsFor.between (hx : StandsFor x p) (hy : StandsFor y q) (hr : StandsFor r t)
    (hp : p ∈ Set.Icc 0 255) (hq : q ∈ Set.Icc 0 255) (ht : t ∈ Set.Icc 0 1) :
    StandsFor (Stop.between x y r) (blended p q t) := by
  have hrest := nearest_mem (n := 1) (by norm_num) (by norm_num) (one_sub_mem ht)
  have hleft := nearest_mem (n := 255) (by norm_num) (by norm_num) (mul_nearest_mem hp ht)
  have hright := nearest_mem (n := 255) (by norm_num) (by norm_num) (mul_mem_Icc hq ht)
  have hsum := nearest_mem (n := 510) (by norm_num) (by norm_num) (parts_mem hp hq ht)
  exact (hx.mul (standsFor_one.sub hr hrest.2) hleft.2).add (hy.mul hr hright.2) hsum.2

theorem abs_blended_sub_le (hp : p ∈ Set.Icc 0 255) (hq : q ∈ Set.Icc 0 255)
    (ht : t ∈ Set.Icc 0 1) : |blended p q t - (p * (1 - t) + q * t)| ≤ blendError := by
  -- each of the four roundings is off by half a place below the next power of two
  have hrest := abs_nearest_sub_le_of_mem (k := 1) (by norm_num) (by norm_num) (one_sub_mem ht)
  have hleft := abs_nearest_sub_le_of_mem (k := 8) (by norm_num) (by norm_num)
    (mul_nearest_mem hp ht)
  have hright := abs_nearest_sub_le_of_mem (k := 8) (by norm_num) (by norm_num) (mul_mem_Icc hq ht)
  have hsum := abs_nearest_sub_le_of_mem (k := 9) (by norm_num) (by norm_num) (parts_mem hp hq ht)
  have hmul : |p * nearest (1 - t) - p * (1 - t)| ≤ 255 * 2 ^ (1 - 54 : ℤ) := by
    rw [← mul_sub, abs_mul, abs_of_nonneg hp.1]
    exact mul_le_mul hp.2 hrest (abs_nonneg _) (by norm_num)
  rw [abs_le] at hleft hright hsum hmul
  rw [blended, abs_le, blendError]
  unfold parts at hsum ⊢
  norm_num at hleft hright hsum hmul ⊢
  constructor <;> linarith

/-- Nothing is rounded away at the ratio 0, of a number of any size. -/
theorem StandsFor.between_zero (hx : StandsFor x p) (hy : StandsFor y q) (hr : StandsFor r 0) :
    StandsFor (Stop.between x y r) p := by
  have hone : nearest (1 - 0) = 1 := by
    rw [sub_zero, nearest_of_representable representable_one]
  have hkeep : nearest p = p := nearest_of_representable hx.representable
  have hrest := standsFor_one.sub hr (by rw [hone]; exact standsFor_one.abs_lt)
  rw [hone] at hrest
  have hleft := hx.mul hrest (by rw [mul_one, hkeep]; exact hx.abs_lt)
  rw [mul_one, hkeep] at hleft
  have hright := hy.mul hr (by rw [mul_zero, nearest_zero]; exact standsFor_zero.abs_lt)
  rw [mul_zero, nearest_zero] at hright
  have hsum := hleft.add hright (by rw [add_zero, hkeep]; exact hx.abs_lt)
  rwa [add_zero, hkeep] at hsum

/-- A channel depends on the number of its double alone. -/
theorem StandsFor.toUInt8_congr (hx : StandsFor x p) (hy : StandsFor y p) :
    x.toUInt8 = y.toUInt8 := by
  rw [← UInt8.toNat_inj, toNat_toUInt8 hx, toNat_toUInt8 hy]

end Double

namespace Stop

open Double

/-- Every channel is a number from 0 to 255. -/
def InRange (s : Stop) : Prop := ∀ k : Channel, ∃ p ∈ Set.Icc (0 : ℚ) 255, StandsFor (k.ofStop s) p

theorem inRange_ofColour (c : Colour) : (ofColour c).InRange := by
  have h : ∀ b : UInt8, ∃ p ∈ Set.Icc (0 : ℚ) 255, StandsFor b.toFloat p := fun b =>
    ⟨b.toNat, ⟨Nat.cast_nonneg _, by exact_mod_cast Nat.le_of_lt_succ b.toNat_lt⟩,
      standsFor_toFloat_uint8 b⟩
  intro k
  cases k <;> exact h _

/-- Every channel is a number, whatever its size. -/
def IsFinite (s : Stop) : Prop := ∀ k : Channel, (k.ofStop s).isFinite = true

theorem InRange.isFinite {s : Stop} (hs : s.InRange) : s.IsFinite := fun k => by
  obtain ⟨p, -, hp⟩ := hs k
  exact hp.isFinite

/-- At the ratio 0 a blend is the first of its stops. -/
theorem truncate_blend_zero {s t : Stop} {ratio : Float} (hs : s.IsFinite) (ht : t.IsFinite)
    (hratio : StandsFor ratio 0) : (s.blend t ratio).truncate = s.truncate := by
  refine Channel.ext fun k => ?_
  have hbetween := (standsFor_value (hs k)).between_zero (standsFor_value (ht k)) hratio
  rw [k.ofColour_truncate, k.ofColour_truncate, k.ofStop_blend]
  exact hbetween.toUInt8_congr (standsFor_value (hs k))

end Stop

end Colourway
