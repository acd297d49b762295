/-
  Where numbers land on a ramp. Any double may be looked up, on a scale with any ends, so the
  quotient that is computed may be infinite or no number. It is cut down to a whole number
  (`Whole.floors_iff`), and this is wrapped or held to the places there are, among the stops
  (`Whole.lands_place`) and in the table (`Ramp.lands_stepOf`). So no place is asked for that the
  stops or the table do not have; `lookup_lands` says which ones are read.
-/
import Colourway.Proofs.Double.NotFinite
import Colourway.Proofs.Gradient.Ramp

namespace Colourway

open Double

namespace Whole

variable {x : Float} {i : ℤ} {n : ℕ}

/-! ## From doubles to whole numbers -/

/-- The whole number is the double rounded down and held to the range of whole numbers, or zero
if the double is no number. -/
inductive Floors : Float → ℤ → Prop where
  | nan : Floors Float.nan 0
  | above : Floors (infinite .positive) greatest
  | below : Floors (infinite .negative) least
  | finite {x : Float} {q : ℚ} : StandsFor x q → Floors x (max least (min ⌊q⌋ greatest))

theorem floors_ofFloat_floor (x : Float) : Floors x (ofFloat (floor x)) := by
  by_cases hx : x.isFinite = true
  · rw [(standsFor_value hx).floor.ofFloat_eq]
    exact .finite (standsFor_value hx)
  · rcases eq_nan_or_infinite (Bool.eq_false_iff.2 hx) with rfl | ⟨s, rfl⟩
    · have h : ofFloat (floor Float.nan) = 0 := rfl
      exact h ▸ .nan
    · cases s with
      | positive =>
        have h : ofFloat (floor (infinite .positive)) = greatest := rfl
        exact h ▸ .above
      | negative =>
        have h : ofFloat (floor (infinite .negative)) = least := rfl
        exact h ▸ .below

theorem floors_iff : Floors x i ↔ i = ofFloat (floor x) := by
  constructor
  · intro h
    cases h with
    | nan => rfl
    | above => rfl
    | below => rfl
    | finite hx => exact hx.floor.ofFloat_eq.symm
  · rintro rfl
    exact floors_ofFloat_floor x

/-! ## From whole numbers to places -/

/-- The place among `n` that a whole number falls on, if the places go round, or is held to. -/
structure Lands (looped : Bool) (n : ℕ) (i : ℤ) (j : ℕ) : Prop where
  lt : j < n
  wrapped : looped = true → (j : ℤ) ≡ i [ZMOD n]
  held : looped = false → (j : ℤ) = max 0 (min i (n - 1))

theorem wrap_modEq (i : ℤ) (h : 0 < n) : ((wrap i h : ℕ) : ℤ) ≡ i [ZMOD n] := by
  have hcast : ((wrap i h : ℕ) : ℤ) = i % n :=
    Int.toNat_of_nonneg (Int.emod_nonneg i (by omega))
  rw [hcast]
  exact Int.mod_modEq i n

theorem wrap_eq_of_modEq {i' : ℤ} (h : 0 < n) (hmod : i ≡ i' [ZMOD n]) : wrap i h = wrap i' h :=
  Fin.ext (congrArg Int.toNat hmod)

theorem val_hold (i : ℤ) (h : 0 < n) : ((hold i h : ℕ) : ℤ) = max 0 (min i (n - 1)) :=
  Int.toNat_of_nonneg (le_max_left _ _)

/-- The place that is computed, one way or the other. -/
theorem lands_place (looped : Bool) (i : ℤ) (h : 0 < n) :
    Lands looped n i (if looped then wrap i h else hold i h : Fin n) := by
  refine ⟨Fin.isLt _, fun hlooped => ?_, fun hlooped => ?_⟩
  · rw [if_pos hlooped]
    exact wrap_modEq i h
  · rw [if_neg (Bool.eq_false_iff.1 hlooped)]
    exact val_hold i h

end Whole

namespace Scale

variable {g : Gradient} {spread : Spread}

/-! ## Stops -/

/-- The stop of a whole number stands in the place where the number lands. -/
theorem exists_lands (s : Scale) (i : ℤ) :
    ∃ j, Whole.Lands s.looped s.stops.size i j ∧ s.stops[j]? = some (s.stopAt i) :=
  ⟨_, Whole.lands_place s.looped i s.size_pos, Array.getElem?_eq_getElem _⟩

/-- Every shade is blended from two stops that there are. -/
theorem exists_blend (s : Scale) (n : Float) :
    ∃ base i j first second ratio,
      Whole.Floors ((n + s.offset - s.min) / (s.max - s.min) *
        Whole.toFloat (s.stops.size - 1)) base ∧
      Whole.Lands s.looped s.stops.size base i ∧
      Whole.Lands s.looped s.stops.size (min (base + 1) Whole.greatest) j ∧
      s.stops[i]? = some first ∧ s.stops[j]? = some second ∧
      s.blendAt n = first.blend second ratio := by
  obtain ⟨i, hi, hfirst⟩ := s.exists_lands (Whole.ofFloat (Whole.floor
    ((n + s.offset - s.min) / (s.max - s.min) * Whole.toFloat (s.stops.size - 1))))
  obtain ⟨j, hj, hsecond⟩ := s.exists_lands (min (Whole.ofFloat (Whole.floor
    ((n + s.offset - s.min) / (s.max - s.min) * Whole.toFloat (s.stops.size - 1))) + 1)
    Whole.greatest)
  exact ⟨_, i, j, _, _, _, Whole.floors_ofFloat_floor _, hi, hj, hfirst, hsecond, rfl⟩

theorem size_stops_ofGradient :
    (ofGradient g spread).stops.size =
      if spread.min ≥ spread.max then 1 else g.stops.length := by
  unfold ofGradient
  split <;> simp

theorem min_ofGradient : (ofGradient g spread).min = spread.min := by
  unfold ofGradient
  split <;> rfl

theorem looped_ofGradient : (ofGradient g spread).looped = spread.looped := by
  unfold ofGradient
  split <;> rfl

theorem background_ofGradient : (ofGradient g spread).background = spread.background := by
  unfold ofGradient
  split <;> rfl

end Scale

namespace Ramp

/-! ## The table -/

/-- The place in the table of a ramp of so many steps. The end of a looped ramp stands for
itself. -/
structure Lands (looped : Bool) (steps : ℕ) (i : ℤ) (j : ℕ) : Prop where
  held : looped = false → (j : ℤ) = max 0 (min i steps)
  last : looped = true → i = steps → j = steps
  wrapped : looped = true → i ≠ steps → j < steps ∧ (j : ℤ) ≡ i [ZMOD steps]

/-- The whole number of a double, before it is wrapped or held. -/
def index (r : Ramp) (n : Float) : ℤ := Whole.ofFloat (Whole.floor ((n - r.min) / r.stepSize))

theorem stepOf_eq (r : Ramp) (n : Float) :
    r.stepOf n =
      if r.looped && r.index n != (r.steps : ℤ) then
        (Whole.wrap (r.index n) r.steps_pos).castSucc
      else Whole.hold (r.index n) (Nat.succ_pos r.steps) := rfl

theorem lands_stepOf (r : Ramp) (n : Float) :
    Lands r.looped r.steps (r.index n) (r.stepOf n) := by
  rw [stepOf_eq]
  refine ⟨fun hlooped => ?_, fun hlooped hlast => ?_, fun hlooped hne => ?_⟩
  · rw [hlooped, Bool.false_and, if_neg Bool.false_ne_true, Whole.val_hold]
    push_cast
    rw [add_sub_cancel_right]
  · have hval := Whole.val_hold (r.index n) (Nat.succ_pos r.steps)
    rw [if_neg (by simp [hlast])]
    push_cast at hval
    omega
  · rw [if_pos (by simp [hlooped, hne]), Fin.val_castSucc]
    exact ⟨Fin.isLt _, Whole.wrap_modEq _ r.steps_pos⟩

/-- Looped, whole numbers a multiple of the steps apart share a place, but for the end. -/
theorem stepOf_congr {r : Ramp} {m n : Float} (hlooped : r.looped = true)
    (hmod : r.index m ≡ r.index n [ZMOD r.steps])
    (hend : r.index m = r.steps ↔ r.index n = r.steps) : r.stepOf m = r.stepOf n := by
  rw [stepOf_eq, stepOf_eq]
  by_cases hm : r.index m = r.steps
  · rw [hm, hend.1 hm]
  · have hn := mt hend.2 hm
    rw [if_pos (by simp [hlooped, hm]), if_pos (by simp [hlooped, hn]),
      Whole.wrap_eq_of_modEq r.steps_pos hmod]

theorem getElem?_table (r : Ramp) (i : Fin (r.steps + 1)) : r.table[i.val]? = some (r.entry i) :=
  Array.getElem?_eq_getElem _

/-- A lookup reads the entry of the place where the number lands. -/
theorem exists_lookup (r : Ramp) (n : Float) :
    ∃ i j c, Whole.Floors ((n - r.min) / r.stepSize) i ∧ Lands r.looped r.steps i j ∧
      r.table[j]? = some c ∧ r.lookup n = if n == 0 then r.background.getD c else c :=
  ⟨_, _, _, Whole.floors_ofFloat_floor _, r.lands_stepOf n, r.getElem?_table _, r.lookup_eq n⟩

end Ramp

/-- Any double may be looked up, with any ends, offset and background. Every shade is blended
from stops that there are, in the places where the number rounded down and the next one land.
The table has 255 entries for each stop and one more, and a lookup reads the one where the number
of the step lands. So looped lookups a multiple of the steps apart agree, but for the end. -/
theorem lookup_lands (g : Gradient) (spread : Spread) :
    let r := Ramp.ofGradient g spread
    let k := if spread.min ≥ spread.max then 1 else g.stops.length
    (1 ≤ g.stops.length ∧ g.stops.length ≤ 1024) ∧
    r.stops.size = k ∧ r.table.size = 255 * k + 1 ∧
    (∀ i ≤ 255 * k, r.table[i]? = some (r.shadeAt
      (r.min + (r.max - r.min) * (Whole.toFloat i / Whole.toFloat (255 * k))))) ∧
    (∀ n, ∃ base i j first second ratio,
      Whole.Floors ((n + r.offset - r.min) / (r.max - r.min) * Whole.toFloat (k - 1)) base ∧
      Whole.Lands spread.looped k base i ∧
      Whole.Lands spread.looped k (min (base + 1) Whole.greatest) j ∧
      r.stops[i]? = some first ∧ r.stops[j]? = some second ∧
      r.blendAt n = first.blend second ratio) ∧
    (∀ n, ∃ i j c, Whole.Floors ((n - spread.min) / r.stepSize) i ∧
      Ramp.Lands spread.looped (255 * k) i j ∧ r.table[j]? = some c ∧
      r.lookup n = if n == 0 then spread.background.getD c else c) ∧
    (spread.background = none → spread.looped = true → ∀ m n i j,
      Whole.Floors ((m - spread.min) / r.stepSize) i →
      Whole.Floors ((n - spread.min) / r.stepSize) j →
      i ≡ j [ZMOD (255 * k : ℕ)] → (i = (255 * k : ℕ) ↔ j = (255 * k : ℕ)) →
      r.lookup m = r.lookup n) := by
  intro r k
  have hsize : r.stops.size = k := Scale.size_stops_ofGradient
  have hsteps : r.steps = 255 * k := congrArg (255 * ·) hsize
  have hmin : r.min = spread.min := Scale.min_ofGradient
  have hlooped : r.looped = spread.looped := Scale.looped_ofGradient
  have hbackground : r.background = spread.background := Scale.background_ofGradient
  refine ⟨⟨g.length_pos, g.length_le⟩, hsize, hsteps ▸ r.size_table, fun i hi => ?_, fun n => ?_,
    fun n => ?_, fun hnone hloop m n i j hi hj hmod hend => ?_⟩
  · have hentry := r.getElem?_table ⟨i, Nat.lt_succ_of_le (hsteps.symm ▸ hi)⟩
    rw [Ramp.entry_ofGradient, Scale.shadeOfStep] at hentry
    rw [← hsteps]
    exact hentry
  · have hblend := r.exists_blend n
    rwa [hsize, hlooped] at hblend
  · have hlookup := r.exists_lookup n
    rwa [hsteps, hlooped, hmin, hbackground] at hlookup
  · rw [← hmin, Whole.floors_iff] at hi hj
    rw [hi, hj, ← hsteps] at hmod hend
    rw [r.lookup_eq, r.lookup_eq, Ramp.stepOf_congr (hlooped.trans hloop) hmod hend, hbackground,
      hnone, Option.getD_none, ite_self, ite_self]

/-- Far beyond the end of a looped ramp, at a number whose step is the greatest whole number, and
on a ramp whose ends are no numbers. -/
theorem lookup_lands_far :
    let g : Gradient := ⟨[Stop.ofColour .black, Stop.ofColour .white], by decide, by decide⟩
    let r := Ramp.ofGradient g { min := 0, max := 510, looped := true }
    r.lookup 1e300 = r.lookup 127 ∧
      (Ramp.ofGradient g { min := Float.nan, max := Float.nan }).table.size = 511 := by
  intro g r
  have hfar : Whole.Floors ((1e300 - 0) / r.stepSize) Whole.greatest :=
    Whole.floors_iff.2 (by decide +kernel)
  have hnear : Whole.Floors ((127 - 0) / r.stepSize) 127 := Whole.floors_iff.2 (by decide +kernel)
  exact ⟨(lookup_lands g { min := 0, max := 510, looped := true }).2.2.2.2.2.2 rfl rfl 1e300 127
      _ _ hfar hnear (by decide +kernel) (by decide +kernel),
    (lookup_lands g { min := Float.nan, max := Float.nan }).2.2.1.trans (by decide +kernel)⟩

end Colourway
