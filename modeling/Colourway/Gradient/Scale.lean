/-
  A gradient laid along a scale of numbers, and the shade that falls on each of them.

  The stops lie at equal distances from `min` to `max`. Beyond both ends the shades of the
  ends go on, or else, on a looped scale, the gradient starts over, and there the last stop
  blends back into the first.
-/
import Colourway.Gradient.Basic
import Colourway.Number.Whole

namespace Colourway

/-- How a gradient is to be laid along numbers. -/
structure Spread where
  min : Float
  max : Float
  /-- Added to every number before its shade is found. -/
  offset : Float := 0
  looped : Bool := false
  /-- The shade of zero, if it is to have one of its own. -/
  background : Option Colour := none

namespace Spread

/-- From 0 to 1. -/
def unit : Spread := { min := 0, max := 1 }

end Spread

/-- The stops of a gradient along numbers. -/
structure Scale extends Spread where
  stops : Array Stop
  size_pos : 0 < stops.size

namespace Scale

/-- The gradient laid along numbers. If `min` is not below `max`, only the first stop is used,
and the scale is one wide. -/
def ofGradient (g : Gradient) (spread : Spread) : Scale :=
  if spread.min ≥ spread.max then
    { spread with max := spread.min + 1, stops := #[g.first], size_pos := Nat.one_pos }
  else { spread with stops := g.stops.toArray, size_pos := by simpa using g.length_pos }

/-- The stop of an index, wrapped or held. -/
def stopAt (s : Scale) (i : Int) : Stop :=
  s.stops[if s.looped then Whole.wrap i s.size_pos else Whole.hold i s.size_pos]

/-- The double nearest to the given one from 0 to 1; what is no number stays so. -/
def holdRatio (x : Float) : Float := if x < 0 then 0 else if 1 < x then 1 else x

/-- The shade of a number, with nothing cut off. -/
def blendAt (s : Scale) (n : Float) : Stop :=
  let position := (n + s.offset - s.min) / (s.max - s.min)
  let scaled := position * Whole.toFloat (s.stops.size - 1)
  let base := Whole.floor scaled
  let i := Whole.ofFloat base
  (s.stopAt i).blend (s.stopAt (min (i + 1) Whole.greatest)) (holdRatio (scaled - base))

/-- The shade of a number. -/
def shadeAt (s : Scale) (n : Float) : Colour := (s.blendAt n).truncate

end Scale

end Colourway
