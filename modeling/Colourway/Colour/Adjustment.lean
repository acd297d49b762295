/-
  Adjustments of colours. Two of them move red, green and blue halfway to the full light or
  to darkness; three change how far a colour covers what lies under it.
-/
import Colourway.Colour.Basic

namespace Colourway

inductive Adjustment where
  /-- Halfway to full light. -/
  | light
  /-- Halfway to darkness. -/
  | dark
  /-- No cover at all. -/
  | transparent
  /-- Half the cover. -/
  | translucent
  /-- Twice the cover, up to the full one. -/
  | solid
  deriving DecidableEq

namespace Adjustment

/-- Every adjustment. -/
def all : List Adjustment := [.light, .dark, .transparent, .translucent, .solid]

/-- The word for an adjustment. -/
def keyword : Adjustment → String
  | .light => "light"
  | .dark => "dark"
  | .transparent => "transparent"
  | .translucent => "translucent"
  | .solid => "opaque"

/-- The adjustment of a word, whatever the case of its letters. -/
def ofKeyword? (word : String) : Option Adjustment :=
  all.find? fun m => Text.sameIgnoringCase m.keyword word

/-- The adjusted colour. Halving drops the remainder. -/
def apply : Adjustment → Colour → Colour
  | .light, c => ⟨c.r / 2 + 128, c.g / 2 + 128, c.b / 2 + 128, c.a⟩
  | .dark, c => ⟨c.r / 2, c.g / 2, c.b / 2, c.a⟩
  | .transparent, c => { c with a := 0 }
  | .translucent, c => { c with a := c.a / 2 }
  | .solid, c => { c with a := if c.a < 128 then 2 * c.a else 255 }

/-- The colour after adjusting it several times over. -/
def applyTimes (m : Adjustment) : Nat → Colour → Colour
  | 0, c => c
  | n + 1, c => applyTimes m n (m.apply c)

end Adjustment

end Colourway
