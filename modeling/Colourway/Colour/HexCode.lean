/-
  Hexadecimal codes of colours. A code has eight digits (two for each channel), six (the same
  without the cover), four (one for each channel, standing for a doubled digit) or three.

  Two readers differ in what they leave over: `readStart?` takes the longest code that a text
  starts with and says how long it is, `ofHexCode?` takes a whole text or nothing.
-/
import Colourway.Colour.Basic
import Colourway.Number.Hexadecimal
import Colourway.Text.Blank

namespace Colourway

namespace HexCode

/-- The digit counts of codes, the longest first. -/
def widths : List Nat := [8, 6, 4, 3]

/-- The values of the first `n` characters, if all of them are digits. -/
def leading? : Nat → List Char → Option (List Nat)
  | 0, _ => some []
  | _ + 1, [] => none
  | n + 1, c :: cs =>
    match Hexadecimal.value? c, leading? n cs with
    | some d, some ds => some (d :: ds)
    | _, _ => none

/-- The channel written with two digits. -/
def pair (high low : Nat) : UInt8 := (16 * high + low).toUInt8

/-- The channel written with one digit, which counts twice. -/
def double (d : Nat) : UInt8 := pair d d

/-- The colour with the given digits. -/
def ofDigits? : List Nat → Option Colour
  | [r, g, b] => some (.rgb (double r) (double g) (double b))
  | [r, g, b, a] => some ⟨double r, double g, double b, double a⟩
  | [r, r', g, g', b, b'] => some (.rgb (pair r r') (pair g g') (pair b b'))
  | [r, r', g, g', b, b', a, a'] => some ⟨pair r r', pair g g', pair b b', pair a a'⟩
  | _ => none

/-- The colour written with the first `n` characters. -/
def readWidth? (n : Nat) (text : List Char) : Option Colour := (leading? n text).bind ofDigits?

/-- The longest code at the start of a text: how many digits it has, and its colour. -/
def readDigits? (text : List Char) : Option (Nat × Colour) :=
  widths.findSome? fun n => (readWidth? n text).map (n, ·)

/-- The longest code at the start of a text, behind a hash sign or not. The sign is not
counted. -/
def readStart? : List Char → Option (Nat × Colour)
  | '#' :: text => readDigits? text
  | text => readDigits? text

theorem length_of_leading? {n : Nat} {text : List Char} {ds : List Nat}
    (h : leading? n text = some ds) : ds.length = n ∧ n ≤ text.length := by
  induction n generalizing text ds with
  | zero => simp only [leading?, Option.some.injEq] at h; subst h; simp
  | succ n ih =>
    cases text with
    | nil => simp [leading?] at h
    | cons c cs =>
      simp only [leading?] at h
      split at h
      case h_1 d ds' _ hds =>
        simp only [Option.some.injEq] at h
        subst h
        have := ih hds
        simp only [List.length_cons]
        omega
      case h_2 => simp at h

/-- A code has at least three digits and lies inside the text. -/
theorem bounds_of_readDigits? {text : List Char} {n : Nat} {c : Colour}
    (h : readDigits? text = some (n, c)) : 3 ≤ n ∧ n ≤ text.length := by
  obtain ⟨m, hm, hr⟩ := List.exists_of_findSome?_eq_some h
  simp only [Option.map_eq_some_iff, Prod.mk.injEq, readWidth?, Option.bind_eq_some_iff] at hr
  obtain ⟨_, ⟨ds, hds, _⟩, rfl, rfl⟩ := hr
  refine ⟨?_, (length_of_leading? hds).2⟩
  simp only [widths, List.mem_cons, List.not_mem_nil, or_false] at hm
  omega

end HexCode

namespace Colour

/-- The eight-digit code, behind a hash sign. -/
def hexCode (c : Colour) : String :=
  String.ofList ('#' :: c.channels.flatMap Hexadecimal.writeByte)

/-- The colour whose code makes up the whole text, but for white space around it and any
number of hash signs before it. -/
def ofHexCode? (text : String) : Option Colour :=
  let digits := (Text.trim text.toList).dropWhile (· == '#')
  match HexCode.readDigits? digits with
  | some (n, c) => if n = digits.length then some c else none
  | none => none

end Colour

end Colourway
