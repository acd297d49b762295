/-
  How numbers are laid out in a text: where the point stands, when an exponent is used, and
  how infinity is named. A layout is a record of these decisions, and each kind of output has
  its own.
-/
import Colourway.Number.Shortest

namespace Colourway

/-- The decisions on how a number is written. -/
structure Layout where
  /-- The exponents for which a number is written in full; the others are written out as such. -/
  inFull : Int → Bool
  /-- A whole number written in full ends in `.0`. -/
  keepsPoint : Bool
  /-- A positive exponent has a plus sign. -/
  plusSign : Bool
  /-- Which of two equally near decimals is written. -/
  tie : Shortest.Tie

namespace Layout

/-- The digits of a number, at least `count` of them. -/
def padded (count n : Nat) : List Char :=
  let digits := Nat.toDigits 10 n
  List.replicate (count - digits.length) '0' ++ digits

/-- A number in full. -/
def full (l : Layout) (d : Shortest.Digits) : List Char :=
  let digits := padded d.count d.value
  if d.exponent < 0 then '0' :: '.' :: (List.replicate (-d.exponent - 1).toNat '0' ++ digits)
  else
    let wholeLength := d.exponent.toNat + 1
    let whole := digits.take wholeLength ++ List.replicate (wholeLength - digits.length) '0'
    match digits.drop wholeLength with
    | [] => whole ++ (if l.keepsPoint then ['.', '0'] else [])
    | fraction => whole ++ '.' :: fraction

/-- A number with an exponent. -/
def scientific (l : Layout) (d : Shortest.Digits) : List Char :=
  let mantissa := match padded d.count d.value with
    | first :: second :: rest => first :: '.' :: second :: rest
    | digits => digits
  let sign := if d.exponent < 0 then ['-'] else if l.plusSign then ['+'] else []
  mantissa ++ 'e' :: (sign ++ Nat.toDigits 10 d.exponent.natAbs)

/-- The size of a finite number. -/
def magnitude (l : Layout) (x : Float) : List Char :=
  let binary := Shortest.Binary.ofFloat x
  let digits := if binary.m = 0 then ⟨0, 1, 0⟩ else binary.shortest l.tie
  if l.inFull digits.exponent then l.full digits else l.scientific digits

/-- A number, whatever it is. Zero has a sign like any other number. -/
def write (l : Layout) (x : Float) : String :=
  if x.isNaN then "NaN"
  else
    let size := if x.isInf then ['i', 'n', 'f'] else l.magnitude x
    String.ofList (if x.toBits < 0x8000000000000000 then size else '-' :: size)

end Layout

end Colourway
