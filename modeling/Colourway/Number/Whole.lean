/-
  Whole numbers and doubles. A double of size `2^52` or more is whole, and so is taken as it
  is; below that, cutting a double down to a whole number is exact.
-/

namespace Colourway.Whole

/-- Doubles from here on have no fraction. -/
def exactFrom : Float := 4503599627370496

/-- The double without its fraction and its sign, for doubles below `exactFrom` in size. -/
def magnitude (x : Float) : Float := x.abs.toUInt64.toFloat

/-- The greatest whole double that is not above the given one. What is no number, infinite or
whole already stays as it is, and so does the sign of zero. -/
def floor (x : Float) : Float :=
  if x.abs < exactFrom then
    if magnitude x == x.abs then x
    else if x < 0 then -(magnitude x + 1)
    else magnitude x
  else x

/-- The greatest of the whole numbers that doubles are turned into: `2^63 - 1`. -/
def greatest : Int := 0x7FFFFFFFFFFFFFFF

/-- The least of the whole numbers that doubles are turned into: `-2^63`. -/
def least : Int := -0x8000000000000000

/-- The whole number of a double, cut off towards zero and held between `least` and
`greatest`; zero for what is no number. -/
def ofFloat (x : Float) : Int :=
  if x < 0 then max (-(x.abs.toUInt64.toNat : Int)) least
  else min (x.toUInt64.toNat : Int) greatest

/-- The double of a natural number below `2^64`. -/
def toFloat (n : Nat) : Float := n.toUInt64.toFloat

theorem ofFloat_mem (x : Float) : least ≤ ofFloat x ∧ ofFloat x ≤ greatest := by
  unfold ofFloat least greatest
  split <;> omega

/-- The index congruent to a whole number, among `n` of them. -/
def wrap (i : Int) {n : Nat} (h : 0 < n) : Fin n :=
  ⟨(i % (n : Int)).toNat, by
    have h0 := Int.emod_nonneg i (show (n : Int) ≠ 0 by omega)
    have h1 := Int.emod_lt_of_pos i (show (0 : Int) < (n : Int) by omega)
    omega⟩

/-- The index nearest to a whole number, among `n` of them. -/
def hold (i : Int) {n : Nat} (h : 0 < n) : Fin n :=
  ⟨(max 0 (min i ((n : Int) - 1))).toNat, by omega⟩

end Colourway.Whole
