/-
  Ramps: a scale with its shades worked out beforehand, at equal steps from one end to the
  other. Looking up a shade is then a matter of finding the step.

  The table has one entry more than there are steps, and its last entry stands for the upper
  end itself. That is why a looped ramp wraps the numbers beyond the end but not the end.
-/
import Colourway.Gradient.Scale

namespace Colourway

namespace Scale

/-- The number of steps from one end to the other. -/
def steps (s : Scale) : Nat := 255 * s.stops.size

theorem steps_pos (s : Scale) : 0 < s.steps := Nat.mul_pos (by decide) s.size_pos

/-- The width of a step. -/
def stepSize (s : Scale) : Float := (s.max - s.min) / Whole.toFloat s.steps

/-- The shade at the start of a step. -/
def shadeOfStep (s : Scale) (i : Nat) : Colour :=
  s.shadeAt (s.min + (s.max - s.min) * (Whole.toFloat i / Whole.toFloat s.steps))

end Scale

/-- A scale and the shades at the start of its steps, with that of the upper end. -/
structure Ramp extends Scale where
  table : Array Colour
  size_table : table.size = toScale.steps + 1

namespace Ramp

/-- The ramp of a scale. -/
def ofScale (s : Scale) : Ramp :=
  { s with
    table := Array.ofFn fun i : Fin (s.steps + 1) => s.shadeOfStep i
    size_table := Array.size_ofFn }

/-- The ramp of a gradient laid along numbers. -/
def ofGradient (g : Gradient) (spread : Spread) : Ramp := ofScale (.ofGradient g spread)

/-- The step that a number falls on: wrapped, but for the upper end, or held. -/
def stepOf (r : Ramp) (n : Float) : Fin (r.steps + 1) :=
  let i := Whole.ofFloat (Whole.floor ((n - r.min) / r.stepSize))
  if r.looped && i != (r.steps : Int) then (Whole.wrap i r.steps_pos).castSucc
  else Whole.hold i (Nat.succ_pos r.steps)

/-- The entry of a step. -/
def entry (r : Ramp) (i : Fin (r.steps + 1)) : Colour :=
  r.table[Fin.cast r.size_table.symm i]

/-- The shade of a number, out of the table; of zero, the background if there is one. -/
def lookup (r : Ramp) (n : Float) : Colour :=
  match r.background with
  | some c => if n == 0 then c else r.entry (r.stepOf n)
  | none => r.entry (r.stepOf n)

end Ramp

end Colourway
