/-
  Colours of four eight-bit channels, and the colours that have a name of their own.
-/
import Colourway.Text.LetterCase

namespace Colourway

/-- A colour: red, green, blue, and how far it covers what lies under it. -/
structure Colour where
  r : UInt8
  g : UInt8
  b : UInt8
  a : UInt8
  deriving DecidableEq

namespace Colour

/-- A colour that covers fully. -/
def rgb (r g b : UInt8) : Colour := ⟨r, g, b, 255⟩

/-- The grey of a brightness, from black at 0 to white at 255. -/
def grey (brightness : UInt8) : Colour := rgb brightness brightness brightness

def black : Colour := grey 0

def white : Colour := grey 255

/-- No light and no cover: every channel zero. -/
def clear : Colour := ⟨0, 0, 0, 0⟩

instance : Inhabited Colour := ⟨clear⟩

/-- The channels, red first. -/
def channels (c : Colour) : List UInt8 := [c.r, c.g, c.b, c.a]

/-- How bright the colour looks: its channels weighted as the eye weighs them, cover left out. -/
def luminance (c : Colour) : Float :=
  0.2126 * c.r.toFloat + 0.7152 * c.g.toFloat + 0.0722 * c.b.toFloat

/-- The colours known to everyone by name. -/
def named : List (String × Colour) := [
  ("red", rgb 255 0 0),
  ("green", rgb 0 255 0),
  ("blue", rgb 0 0 255),
  ("yellow", rgb 255 255 0),
  ("cyan", rgb 0 255 255),
  ("magenta", rgb 255 0 255),
  ("white", rgb 255 255 255),
  ("grey", rgb 127 127 127),
  ("gray", rgb 127 127 127),
  ("black", rgb 0 0 0),
  ("orange", rgb 255 127 0),
  ("pink", rgb 255 0 127),
  ("purple", rgb 127 0 255),
  ("sky", rgb 0 164 255)]

/-- The colour of a name, whatever the case of its letters. -/
def ofName? (name : String) : Option Colour :=
  (named.find? fun entry => Text.sameIgnoringCase entry.1 name).map (·.2)

end Colour

end Colourway
