/-
  Hexadecimal digits and numbers. Numbers are written in lower case; digits of either case
  are read.
-/

namespace Colourway.Hexadecimal

/-- The digit that stands for a number below sixteen. -/
def digit (n : Nat) : Char := if n < 10 then Char.ofNat (48 + n) else Char.ofNat (87 + n)

/-- The number that a digit stands for. -/
def value? (c : Char) : Option Nat :=
  if '0' ≤ c ∧ c ≤ '9' then some (c.toNat - 48)
  else if 'a' ≤ c ∧ c ≤ 'f' then some (c.toNat - 87)
  else if 'A' ≤ c ∧ c ≤ 'F' then some (c.toNat - 55)
  else none

theorem value?_digit {n : Nat} (h : n < 16) : value? (digit n) = some n := by
  have all : ∀ n : Fin 16, value? (digit n) = some n.val := by decide
  exact all ⟨n, h⟩

theorem lt_of_value? {c : Char} {n : Nat} (h : value? c = some n) : n < 16 := by
  simp only [value?, Char.le_def, UInt32.le_iff_toNat_le] at h
  have hc : c.toNat = c.val.toNat := rfl
  split at h
  case isTrue hd =>
    have h9 : ('9' : Char).val.toNat = 57 := rfl
    simp only [Option.some.injEq] at h; omega
  case isFalse =>
    split at h
    case isTrue hl =>
      have hf : ('f' : Char).val.toNat = 102 := rfl
      simp only [Option.some.injEq] at h; omega
    case isFalse =>
      split at h
      case isTrue hu =>
        have hf : ('F' : Char).val.toNat = 70 := rfl
        simp only [Option.some.injEq] at h; omega
      case isFalse => simp at h

/-- A number without leading zeros. -/
def write (n : Nat) : List Char :=
  if n < 16 then [digit n] else write (n / 16) ++ [digit (n % 16)]

/-- A byte in two digits. -/
def writeByte (b : UInt8) : List Char := [digit (b.toNat / 16), digit (b.toNat % 16)]

end Colourway.Hexadecimal
