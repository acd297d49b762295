/-
  Doubles that stand for no number: one that is no number at all, and the two infinite ones
  (`eq_nan_or_infinite`). The first comes out of every product it goes into (`mul_nan`); an
  infinite one turns into it when it is multiplied by zero (`mul_zero_eq_nan`). Dividing by zero
  never gives a number (`StandsFor.isFinite_div_zero`).
-/
import Colourway.Proofs.Number.Whole

namespace Colourway.Double

open Float.Model Float.Model.UnpackedFloat

variable {x y : Float} {p : ℚ}

/-! ## The three of them -/

/-- The infinite double of a sign. -/
def infinite (s : Sign) : Float := .ofModel (.pack (.infinity s))

theorem unpack_infinite (s : Sign) : (infinite s).toModel.unpack = .infinity s :=
  unpack_packedInfinity s

theorem eq_pack_unpack (x : Float) : x = .ofModel (.pack x.toModel.unpack) := by
  have hbits : x.toModel.toBits = (Float.Model.pack x.toModel.unpack).toBits :=
    congrArg UInt64.ofBitVec (pack_unpack_of_valid x.toModel.valid).symm
  obtain ⟨⟨bits, valid⟩⟩ := x
  exact congrArg Float.ofModel (Float.Model.mk.injEq .. ▸ hbits)

theorem nan_eq_pack : Float.nan = .ofModel (.pack .notANumber) := rfl

theorem unpack_nan : Float.nan.toModel.unpack = .notANumber := by
  rw [nan_eq_pack]
  exact unpack_packedNaN

theorem eq_nan_or_infinite (h : x.isFinite = false) : x = Float.nan ∨ ∃ s, x = infinite s := by
  have hfinite : x.toModel.unpack.isFinite = false := h
  have hx := eq_pack_unpack x
  generalize x.toModel.unpack = u at hfinite hx
  cases u with
  | notANumber => exact .inl (hx.trans nan_eq_pack.symm)
  | infinity s => exact .inr ⟨s, hx⟩
  | zero s => exact nomatch hfinite
  | finite s m e hm => exact nomatch hfinite

/-! ## Order -/

theorem StandsFor.le_infinite_iff (hx : StandsFor x p) (s : Sign) :
    x ≤ infinite s ↔ s = .positive := by
  have hu := hx.canonical
  rw [le_iff_compare, unpack_infinite]
  generalize x.toModel.unpack = u at hu ⊢
  cases hu using Canonical.zero_or_finite with
  | zero t => cases s <;> simp [UnpackedFloat.compare]
  | finite t m e hm => cases s <;> cases t <;> simp [UnpackedFloat.compare]

theorem StandsFor.infinite_le_iff (hx : StandsFor x p) (s : Sign) :
    infinite s ≤ x ↔ s = .negative := by
  have hu := hx.canonical
  rw [le_iff_compare, unpack_infinite]
  generalize x.toModel.unpack = u at hu ⊢
  cases hu using Canonical.zero_or_finite with
  | zero t => cases s <;> simp [UnpackedFloat.compare]
  | finite t m e hm => cases s <;> cases t <;> simp [UnpackedFloat.compare]

theorem StandsFor.not_le_nan (hx : StandsFor x p) : ¬x ≤ Float.nan := by
  have hu := hx.canonical
  rw [le_iff_compare, unpack_nan]
  generalize x.toModel.unpack = u at hu ⊢
  cases hu using Canonical.zero_or_finite with
  | zero t => exact Bool.false_ne_true
  | finite t m e hm => exact Bool.false_ne_true

/-! ## Arithmetic -/

theorem mul_nan (x : Float) : x * Float.nan = Float.nan := by
  have hmul : x * Float.nan = .ofModel (.pack (UnpackedFloat.mul .binary64 x.toModel.unpack
    Float.nan.toModel.unpack)) := rfl
  have hunpacked : ∀ u, UnpackedFloat.mul .binary64 u .notANumber = .notANumber := fun u => by
    cases u <;> rfl
  rw [hmul, unpack_nan, hunpacked, ← nan_eq_pack]

theorem mul_zero_eq_nan (h : x.isFinite = false) : x * 0 = Float.nan := by
  rcases eq_nan_or_infinite h with rfl | ⟨s, rfl⟩
  · rfl
  · cases s <;> rfl

theorem StandsFor.isFinite_div_zero (hy : StandsFor y 0) (x : Float) :
    (x / y).isFinite = false := by
  obtain ⟨s, hs⟩ := hy.exists_unpack_eq_zero
  have hdiv : x / y = .ofModel (.pack (UnpackedFloat.div .binary64 x.toModel.unpack
    y.toModel.unpack)) := rfl
  have hunpacked : ∀ u, (UnpackedFloat.div .binary64 u (.zero s)).isFinite = false := fun u => by
    cases u <;> rfl
  rw [← Bool.not_eq_true]
  intro hfinite
  rw [hdiv, hs] at hfinite
  exact absurd (isFinite_of_pack hfinite) (Bool.eq_false_iff.1 (hunpacked _))

end Colourway.Double
