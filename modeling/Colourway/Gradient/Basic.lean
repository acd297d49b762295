/-
  Gradients: colours to pass through, in order. There is at least one, and there are few
  enough that a table of all the shades in between stays small.
-/
import Colourway.Colour.Stop

namespace Colourway

namespace Gradient

/-- The greatest number of stops. -/
def maxStops : Nat := 1024

end Gradient

/-- The stops of a gradient, the first one first. -/
@[ext] structure Gradient where
  stops : List Stop
  length_pos : 0 < stops.length
  length_le : stops.length ≤ Gradient.maxStops

namespace Gradient

/-- The gradient through the given stops, unless there are none or too many. -/
def ofStops? (stops : List Stop) : Option Gradient :=
  if h : 0 < stops.length ∧ stops.length ≤ maxStops then some ⟨stops, h.1, h.2⟩ else none

/-- The gradient through the given colours, unless there are none or too many. -/
def ofColours? (colours : List Colour) : Option Gradient := ofStops? (colours.map Stop.ofColour)

/-- The number of stops. -/
def length (g : Gradient) : Nat := g.stops.length

/-- The first stop. -/
def first (g : Gradient) : Stop := g.stops.get ⟨0, g.length_pos⟩

/-- Why a list of stops makes no gradient. -/
def sizeMessage : String := s!"gradient needs between 1 and {maxStops} anchors"

theorem ofStops?_eq_some_iff {stops : List Stop} {g : Gradient} :
    ofStops? stops = some g ↔ g.stops = stops := by
  unfold ofStops?
  split
  case isTrue h =>
    constructor
    · intro hg; cases hg; rfl
    · rintro rfl; rfl
  case isFalse h =>
    constructor
    · intro hg; cases hg
    · rintro rfl; exact absurd ⟨g.length_pos, g.length_le⟩ h

end Gradient

end Colourway
