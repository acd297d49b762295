/-
  What can be wrong with a recipe.
-/
import Colourway.Gradient.Basic
import Colourway.Text.Quoted

namespace Colourway.Recipe

inductive Fault where
  /-- No word of the recipe is a colour. -/
  | noColours
  /-- The last transition leads to no colour. -/
  | trailingTransition
  /-- The transitions, repeated as told, lead to more stops than a gradient has. -/
  | tooManyStops (found : Count)
  /-- A character belongs to no word. It is named in lower case; the position is that of the
  character it came from, in bytes. -/
  | strayCharacter (position : Nat) (character : Char)
  deriving DecidableEq

/-- The fault in words. -/
def Fault.message : Fault → String
  | .noColours => "no colours found"
  | .trailingTransition => "ends with a transition to nothing"
  | .tooManyStops found =>
    s!"expands to {found.val} colours, at most {Gradient.maxStops} allowed"
  | .strayCharacter position character =>
    s!"unexpected character {Text.quoteChar character} at offset {position}"

end Colourway.Recipe
