/-
  The stops of a gradient. A stop is a colour with channels that need not be whole, so that
  mixing and blending lose nothing before the end; `truncate` is that end.

  All arithmetic is on doubles and rounds at every step, in the order written here.
-/
import Colourway.Colour.Basic
import Colourway.Number.Count

namespace Colourway

/-- A colour whose channels are doubles. -/
structure Stop where
  r : Float
  g : Float
  b : Float
  a : Float

namespace Stop

instance : Inhabited Stop := ⟨⟨0, 0, 0, 0⟩⟩

/-- The stop of a colour. -/
def ofColour (c : Colour) : Stop := ⟨c.r.toFloat, c.g.toFloat, c.b.toFloat, c.a.toFloat⟩

/-- The weighted sum of one channel, from the first colour to the last. -/
def weigh (channel : Colour → UInt8) (members : List (Colour × Count)) : Float :=
  members.foldl (fun sum m => sum + (channel m.1).toFloat * m.2.toFloat) 0

/-- The mean of several colours, each counted with its weight; none if they weigh nothing. -/
def mix (members : List (Colour × Count)) : Option Stop :=
  let total := Count.sum (members.map (·.2))
  if total = 0 then none
  else
    let mean (channel : Colour → UInt8) : Float := weigh channel members / total.toFloat
    some ⟨mean (·.r), mean (·.g), mean (·.b), mean (·.a)⟩

/-- The number that lies between two others at a ratio, 0 for the first and 1 for the second. -/
def between (x y ratio : Float) : Float := x * (1 - ratio) + y * ratio

/-- The stop that lies between two others at a ratio, 0 for the first and 1 for the second. -/
def blend (s t : Stop) (ratio : Float) : Stop :=
  ⟨between s.r t.r ratio, between s.g t.g ratio, between s.b t.b ratio, between s.a t.a ratio⟩

/-- The colour left when every channel is cut down to a whole number. A channel below 0 or
above 255 goes to that bound, and one that is no number goes to 0. -/
def truncate (s : Stop) : Colour := ⟨s.r.toUInt8, s.g.toUInt8, s.b.toUInt8, s.a.toUInt8⟩

end Stop

end Colourway
