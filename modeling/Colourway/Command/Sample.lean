/-
  Samples of a colour map: the shades of evenly spaced numbers, as a table of comma-separated
  values.
-/
import Colourway.Gradient.Ramp
import Colourway.Number.Layout

namespace Colourway.Command

/-- The numbers from `min` to `max`, both included, in equal steps. -/
def samplePoints (min max : Float) (steps : Nat) : List Float :=
  match steps with
  | 0 => []
  | 1 => [min]
  | n + 2 =>
    (List.range (n + 2)).map fun i =>
      min + (max - min) * (Whole.toFloat i / Whole.toFloat (n + 1))

/-- Numbers whose first digit counts from `10 ^ -5` to `10 ^ 15` are written in full, and with
a point; the others have an exponent. -/
def tableLayout : Layout := ⟨fun e => -5 ≤ e && e ≤ 15, true, false, .toEven⟩

/-- The row of a number and its shade. -/
def tableRow (value : Float) (c : Colour) : String :=
  ",".intercalate (tableLayout.write value :: c.channels.map toString) ++ "\n"

/-- The table of some numbers. It has a heading unless it is empty. -/
def table (ramp : Ramp) (points : List Float) : String :=
  if points.isEmpty then ""
  else "value,r,g,b,a\n" ++ String.join (points.map fun n => tableRow n (ramp.lookup n))

end Colourway.Command
