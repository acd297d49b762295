/-
  Decimal numbers in texts, and the doubles nearest to them.

  `ofText?` reads a number that makes up a whole text: digits with at most one point among,
  before or behind them, an exponent or none, a sign or none; or the name of infinity or of
  what is no number, in any letter case.
-/

namespace Colourway.Decimal

/-- The number that a digit stands for. -/
def digitValue (c : Char) : Nat := c.toNat - 48

/-- The number that a row of digits stands for. -/
def ofDigits (digits : List Char) : Nat :=
  digits.foldl (fun n c => 10 * n + digitValue c) 0

/-- The double nearest to `m * 10 ^ e`. What lies far beyond the greatest double, or far below
the least one, is not worked out. -/
def nearest (m : Nat) (e : Int) : Float :=
  let size : Int := (Nat.toDigits 10 m).length + e
  if m = 0 || size < -330 then 0
  else if 310 < size then 1 / 0
  else Float.ofScientific m (decide (e < 0)) e.natAbs

/-- A decimal number as written: a sign, digits before and after the point, an exponent. -/
structure Literal where
  negative : Bool
  whole : List Char
  fraction : List Char
  exponent : Int

/-- The double nearest to the number. -/
def Literal.toFloat (l : Literal) : Float :=
  let size := nearest (ofDigits (l.whole ++ l.fraction)) (l.exponent - l.fraction.length)
  if l.negative then -size else size

/-- The number with at most `limit` of its digits as written, counted from the first that is
not zero and without the zeros that end the fraction. A one stands for all that follow, if any
do, even if these are zeros before the point. -/
def Literal.abridge (limit : Nat) (l : Literal) : Literal :=
  let fraction := (l.fraction.reverse.dropWhile (· = '0')).reverse
  let digits := (l.whole ++ fraction).dropWhile (· = '0')
  let scale := l.exponent - fraction.length
  if digits.length ≤ limit then ⟨l.negative, digits, [], scale⟩
  else ⟨l.negative, digits.take limit ++ ['1'], [], scale + (digits.length - (limit + 1) : Nat)⟩

/-- A sign at the start of a text: whether it is the negative one, and what follows it. -/
def takeSign : List Char → Bool × List Char
  | '-' :: text => (true, text)
  | '+' :: text => (false, text)
  | text => (false, text)

/-- A natural number that makes up a whole text, with a plus sign or none. -/
def natural? (text : List Char) : Option Nat :=
  let digits := match text with
    | '+' :: rest => rest
    | _ => text
  if digits.isEmpty || !digits.all Char.isDigit then none else some (ofDigits digits)

/-- An exponent that makes up a whole text; none at all stands for zero. -/
def exponent? : List Char → Option Int
  | [] => some 0
  | mark :: text =>
    if mark = 'e' || mark = 'E' then
      let (negative, digits) := takeSign text
      if digits.isEmpty || !digits.all Char.isDigit then none
      else some (if negative then -(ofDigits digits : Int) else ofDigits digits)
    else none

/-- The digits, the point and the exponent of a number that makes up a whole text. -/
def unsigned? (negative : Bool) (text : List Char) : Option Literal :=
  let whole := text.takeWhile Char.isDigit
  let rest := text.dropWhile Char.isDigit
  let (fraction, rest) := match rest with
    | '.' :: rest => (rest.takeWhile Char.isDigit, rest.dropWhile Char.isDigit)
    | _ => ([], rest)
  if whole.isEmpty && fraction.isEmpty then none
  else (exponent? rest).map fun exponent => ⟨negative, whole, fraction, exponent⟩

/-- The double nearest to the number that makes up a whole text. -/
def ofText? (text : String) : Option Float :=
  let (negative, rest) := takeSign text.toList
  let name := String.ofList (rest.map Char.toLower)
  if name = "inf" || name = "infinity" then some (if negative then -1 / 0 else 1 / 0)
  else if name = "nan" then some (0 / 0)
  else (unsigned? negative rest).map Literal.toFloat

end Colourway.Decimal
