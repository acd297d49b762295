/-
  Colours, stops, gradients and adjustments as JSON, on one line or, for gradients, laid out
  over several.
-/
import Colourway.Colour.Adjustment
import Colourway.Gradient.Basic
import Colourway.Number.Layout

namespace Colourway.Json

/-- Numbers whose first digit counts from `10 ^ -5` to `10 ^ 15` are written in full, and with
a point; the others have an exponent, with its sign. -/
def numberLayout : Layout := ⟨fun e => -5 ≤ e && e ≤ 15, true, true, .toEven⟩

/-- A double. JSON has no text for infinity and for what is no number. -/
def ofFloat (x : Float) : String := if x.isFinite then numberLayout.write x else "null"

/-- An object with the four channels; `separator` comes before each field, `gap` before its
value, and `last` before the closing brace. -/
def objectOf (separator gap last : String) (r g b a : String) : String :=
  let field (name value : String) : String := separator ++ name ++ gap ++ value
  "\x7b" ++ field "\x22r\x22:" r ++ "," ++ field "\x22g\x22:" g ++ "," ++
    field "\x22b\x22:" b ++ "," ++ field "\x22a\x22:" a ++ last ++ "\x7d"

def ofColour (c : Colour) : String :=
  objectOf "" "" "" (toString c.r) (toString c.g) (toString c.b) (toString c.a)

def ofStop (s : Stop) : String :=
  objectOf "" "" "" (ofFloat s.r) (ofFloat s.g) (ofFloat s.b) (ofFloat s.a)

def ofGradient (g : Gradient) : String := "[" ++ ",".intercalate (g.stops.map ofStop) ++ "]"

def ofAdjustment (m : Adjustment) : String := "\x22" ++ m.keyword ++ "\x22"

/-- A gradient with a line for every channel. -/
def ofGradientInLines (g : Gradient) : String :=
  let stopInLines (s : Stop) : String :=
    "\n  " ++ objectOf "\n    " " " "\n  " (ofFloat s.r) (ofFloat s.g) (ofFloat s.b) (ofFloat s.a)
  "[" ++ ",".intercalate (g.stops.map stopInLines) ++ "\n]"

end Colourway.Json
