/-
  The shortest decimal that stands for a double: of all decimals that are nearer to it than
  to any other double, those with the fewest digits, and of these the one nearest to it. Two
  of these may be equally near; which of them is taken is for the caller to say.

  A positive double is `m * 2 ^ q`. The decimals that stand for it lie between the midpoints
  to its neighbours, the midpoints included if `m` is even. With a given number of digits the
  decimals form a grid; if one of its points stands for the double, so does one of the two
  points that enclose it. All comparisons are between natural numbers.
-/

namespace Colourway.Shortest

/-- A positive decimal: its digits as a number, how many there are, and the power of ten that
the first of them counts. -/
structure Digits where
  value : Nat
  count : Nat
  exponent : Int

/-- Which of two decimals is taken that are equally near. -/
inductive Tie where
  /-- The one that ends in an even digit. -/
  | toEven
  /-- The greater one. -/
  | up
  deriving DecidableEq

/-- The lower of two equally near neighbours on a grid is taken. -/
def Tie.takesLower (tie : Tie) (lower : Nat) : Bool :=
  match tie with
  | .toEven => lower % 2 = 0
  | .up => false

/-- A positive double `m * 2 ^ q`. -/
structure Binary where
  m : Nat
  q : Int

/-- The weight of the sign in the bits of a double: `2 ^ 63`. -/
def signBit : Nat := 0x8000000000000000

/-- The weight of the lowest bit of the exponent, and the bit that a normal double leaves out
of its fraction: `2 ^ 52`. -/
def hiddenBit : Nat := 0x10000000000000

/-- The size of a finite double. -/
def Binary.ofFloat (x : Float) : Binary :=
  let bits := x.toBits.toNat % signBit
  let exponent : Nat := bits / hiddenBit
  let fraction := bits % hiddenBit
  if exponent = 0 then ⟨fraction, -1074⟩ else ⟨hiddenBit + fraction, Int.ofNat exponent - 1075⟩

/-- `b ^ n` if `n` is positive, and 1 otherwise. -/
def power (b : Nat) (n : Int) : Nat := Nat.pow b n.toNat

namespace Binary

/-- The lower midpoint, in quarters of a unit `2 ^ q`. Below a power of two the doubles lie
twice as close. -/
def low (x : Binary) : Nat :=
  if x.m = hiddenBit ∧ x.q ≠ -1074 then 4 * x.m - 1 else 4 * x.m - 2

/-- The upper midpoint, in quarters of a unit `2 ^ q`. -/
def high (x : Binary) : Nat := 4 * x.m + 2

/-- What a number of quarter units is multiplied with before it is compared with a number of
grid steps `10 ^ g`. -/
def quarterScale (x : Binary) (g : Int) : Nat := power 2 (x.q - 2) * power 10 (-g)

/-- What a number of grid steps is multiplied with for the same comparison. -/
def stepScale (x : Binary) (g : Int) : Nat := power 2 (2 - x.q) * power 10 g

/-- The grid point `n * 10 ^ g` stands for the double. -/
def standsFor (x : Binary) (g : Int) (n : Nat) : Bool :=
  let point := n * x.stepScale g
  let low := x.low * x.quarterScale g
  let high := x.high * x.quarterScale g
  if x.m % 2 = 0 then low ≤ point && point ≤ high else low < point && point < high

/-- The point of a grid that stands for the double, if there is one: of two the nearer. -/
def onGrid? (tie : Tie) (x : Binary) (g : Int) : Option Nat :=
  let size := 4 * x.m * x.quarterScale g
  let step := x.stepScale g
  let below := size / step
  let rest := 2 * (size % step)
  match x.standsFor g below, x.standsFor g (below + 1) with
  | true, true =>
    some (if rest < step || (rest = step && tie.takesLower below) then below else below + 1)
  | true, false => some below
  | false, true => some (below + 1)
  | false, false => none

/-- The power of ten that the first digit of the double counts. It is guessed from the length
of the double in bits, and mended where the guess is one off. -/
def magnitude (x : Binary) : Int :=
  let guess := ((x.m.log2 : Int) + x.q) * 30103 / 100000
  let reaches (e : Int) : Bool := x.stepScale e ≤ 4 * x.m * x.quarterScale e
  if reaches (guess + 1) then guess + 1 else if reaches guess then guess else guess - 1

/-- The shortest decimal of the double. -/
def shortest (tie : Tie) (x : Binary) : Digits :=
  let e := x.magnitude
  let found := (List.range 17).findSome? fun (k : Nat) =>
    (x.onGrid? tie (e - (k : Int))).map fun n =>
      if n = Nat.pow 10 (k + 1) then (⟨1, 1, e + 1⟩ : Digits) else ⟨n, k + 1, e⟩
  found.getD ⟨0, 1, 0⟩

end Binary

end Colourway.Shortest
