/-
  Texts and characters between quotation marks, fit for a message: whatever cannot be shown
  is written as an escape. The quotation mark of the other kind needs none.
-/
import Colourway.Number.Hexadecimal
import Colourway.Text.Printable

namespace Colourway.Text

/-- A character as it stands between two marks. -/
def escape (mark c : Char) : List Char :=
  if c = Char.ofNat 0 then ['\\', '0']
  else if c = '\t' then ['\\', 't']
  else if c = '\r' then ['\\', 'r']
  else if c = '\n' then ['\\', 'n']
  else if c = '\\' || c = mark then ['\\', c]
  else if isExtending c || !isPrintable c then
    ['\\', 'u', '\x7b'] ++ Hexadecimal.write c.toNat ++ ['\x7d']
  else [c]

/-- The mark around a text. -/
def doubleMark : Char := '\x22'

/-- The mark around a single character. -/
def singleMark : Char := '\x27'

/-- A text between double quotation marks. -/
def quote (text : String) : String :=
  String.ofList ([doubleMark] ++ text.toList.flatMap (escape doubleMark) ++ [doubleMark])

/-- A character between single quotation marks. -/
def quoteChar (c : Char) : String :=
  String.ofList ([singleMark] ++ escape singleMark c ++ [singleMark])

end Colourway.Text
