/-
  The parts of a JSON text: blanks, names, strings, numbers, and values of no interest.

  A scanner takes what it reads off the front of a text. What is wrong with a text is told
  from the first place that shows it, and is one of three things: the text is not JSON, it
  ends too early, or it is JSON that does not suit what is wanted.
-/
import Colourway.Colour.HexCode
import Colourway.Number.Decimal

namespace Colourway.Json

inductive Fault where
  /-- The text is not JSON. -/
  | malformed
  /-- The text is JSON, but not for a value of the kind wanted. -/
  | unsuited
  /-- The text ends before its value does. -/
  | truncated
  deriving DecidableEq

/-- Something read off the front of a text, and what is left of the text. -/
abbrev Scan (α : Type) := List Char → Except Fault (α × List Char)

/-- The text without the blanks at its start. JSON has four of them. -/
def skipBlank (text : List Char) : List Char :=
  text.dropWhile fun c => c = ' ' || c = '\n' || c = '\t' || c = '\r'

/-- The text without the given characters at its start. -/
def expect : List Char → List Char → Except Fault (List Char)
  | [], text => .ok text
  | _ :: _, [] => .error .truncated
  | c :: cs, d :: text => if c = d then expect cs text else .error .malformed

/-! ## Strings -/

/-- The character of a one-letter escape. -/
def escaped? : Char → Option Char
  | '\x22' => some '\x22'
  | '\\' => some '\\'
  | '/' => some '/'
  | 'b' => some '\x08'
  | 'f' => some '\x0c'
  | 'n' => some '\n'
  | 'r' => some '\r'
  | 't' => some '\t'
  | _ => none

/-- The number written with the next four digits. Whether the text is too short for them is
a matter of bytes. -/
def codeUnit (text : List Char) : Except Fault Nat :=
  match HexCode.leading? 4 text with
  | some digits => .ok (digits.foldl (fun n d => 16 * n + d) 0)
  | none => .error (if (String.ofList (text.take 4)).utf8ByteSize < 4 then .truncated else .malformed)

/-- The first half of a pair that stands for one character. -/
def isLeading (n : Nat) : Bool := 0xD800 ≤ n && n ≤ 0xDBFF

/-- The second half of such a pair. -/
def isTrailing (n : Nat) : Bool := 0xDC00 ≤ n && n ≤ 0xDFFF

/-- The character that two halves stand for. -/
def paired (n m : Nat) : Char := Char.ofNat (0x10000 + (n - 0xD800) * 0x400 + (m - 0xDC00))

/-- The rest of a string, up to its closing mark. If `strictly`, halves of characters have to
come in pairs. The fuel is to be greater than the length of the text. -/
def stringRest (strictly : Bool) : Nat → Scan (List Char)
  | 0, _ => .error .truncated
  | _ + 1, [] => .error .truncated
  | _ + 1, '\x22' :: text => .ok ([], text)
  | _ + 1, ['\\'] => .error .truncated
  | fuel + 1, '\\' :: 'u' :: text => do
    let n ← codeUnit text
    let text := text.drop 4
    if strictly && isTrailing n then .error .malformed
    else if strictly && isLeading n then
      match text with
      | '\\' :: 'u' :: text =>
        let m ← codeUnit text
        if isTrailing m then
          let (cs, rest) ← stringRest strictly fuel (text.drop 4)
          .ok (paired n m :: cs, rest)
        else .error .malformed
      | [] | ['\\'] => .error .truncated
      | _ => .error .malformed
    else
      let (cs, rest) ← stringRest strictly fuel text
      .ok (Char.ofNat n :: cs, rest)
  | fuel + 1, '\\' :: c :: text =>
    match escaped? c with
    | some d => do
      let (cs, rest) ← stringRest strictly fuel text
      .ok (d :: cs, rest)
    | none => .error .malformed
  | fuel + 1, c :: text =>
    if c.toNat < 0x20 then .error .malformed
    else do
      let (cs, rest) ← stringRest strictly fuel text
      .ok (c :: cs, rest)

/-- The rest of a string that is of interest. -/
def string (text : List Char) : Except Fault (List Char × List Char) :=
  stringRest true (text.length + 1) text

/-- What follows the rest of a string. -/
def skipString (text : List Char) : Except Fault (List Char) := do
  let (_, rest) ← stringRest false (text.length + 1) text
  .ok rest

/-! ## Numbers -/

/-- A number, and whether it is written without a point and an exponent. -/
structure Number where
  literal : Decimal.Literal
  isWhole : Bool

/-- A number may start with the character. -/
def startsNumber (c : Char) : Bool := c = '-' || c.isDigit

/-- A row of digits, at least one. -/
def digits (atEnd : Fault) (text : List Char) : Except Fault (List Char × List Char) :=
  let row := text.takeWhile Char.isDigit
  if row.isEmpty then .error (if text.isEmpty then atEnd else .malformed)
  else .ok (row, text.dropWhile Char.isDigit)

/-- The digits before the point, of which the first is zero only if it is the last. -/
def wholePart (atEnd : Fault) (text : List Char) : Except Fault (List Char × List Char) := do
  let (row, rest) ← digits atEnd text
  match row with
  | '0' :: _ :: _ => .error .malformed
  | _ => .ok (row, rest)

/-- The digits behind the point, if there is one. -/
def fractionPart (atEnd : Fault) : Scan (Option (List Char))
  | '.' :: text => do
    let (row, rest) ← digits atEnd text
    .ok (some row, rest)
  | text => .ok (none, text)

/-- The exponent, if there is one. -/
def exponentPart (atEnd : Fault) (text : List Char) :
    Except Fault (Option Int × List Char) :=
  match text with
  | mark :: text' =>
    if mark = 'e' || mark = 'E' then do
      let (negative, text') := Decimal.takeSign text'
      let (row, rest) ← digits atEnd text'
      let size : Int := Decimal.ofDigits row
      .ok (some (if negative then -size else size), rest)
    else .ok (none, text)
  | [] => .ok (none, [])

/-- A number. A text that ends inside it has the fault `atEnd`. -/
def number (atEnd : Fault) (text : List Char) : Except Fault (Number × List Char) := do
  let (negative, text) := match text with
    | '-' :: rest => (true, rest)
    | _ => (false, text)
  let (whole, text) ← wholePart atEnd text
  let (fraction, text) ← fractionPart atEnd text
  let (exponent, text) ← exponentPart atEnd text
  .ok (⟨⟨negative, whole, fraction.getD [], exponent.getD 0⟩,
    fraction.isNone && exponent.isNone⟩, text)

/-- The double nearest to a number. What lies halfway between two doubles has at most 768
digits, so of the digits behind the first 768 it matters only that there are any. They are
taken to make the number greater: one that lies halfway, and goes on in zeros before the
point, goes to the greater double. -/
def Number.toFloat (n : Number) : Float := (n.literal.abridge 768).toFloat

/-- A number that some double stands for. -/
def finiteNumber (text : List Char) : Except Fault (Number × List Char) := do
  let (n, rest) ← number .truncated text
  if n.toFloat.isInf then .error .malformed else .ok (n, rest)

/-! ## Values of no interest -/

/-- What a value may stand in. -/
inductive Frame where
  | list
  | object
  deriving DecidableEq

/-- The character that closes a list or an object. -/
def Frame.close : Frame → Char
  | .list => ']'
  | .object => '\x7d'

/-- What is looked for next. -/
inductive Next where
  | value
  /-- The first item of a list or an object, or its end. -/
  | firstItem
  /-- Another item, or the end. -/
  | item

/-- What follows a key of an object and the colon behind it. -/
def skipKey (text : List Char) : Except Fault (List Char) :=
  match skipBlank text with
  | [] => .error .truncated
  | '\x22' :: rest => do
    let rest ← skipString rest
    expect [':'] (skipBlank rest)
  | _ => .error .malformed

/-- What follows a value inside the given lists and objects, the innermost first, and the
rest of those. The fuel is to be greater than twice the length of the text. -/
def skipFrom : Nat → Next → List Frame → List Char → Except Fault (List Char)
  | 0, _, _, _ => .error .truncated
  | fuel + 1, .value, frames, text =>
    match skipBlank text with
    | [] => .error .truncated
    | '[' :: rest => skipFrom fuel .firstItem (.list :: frames) rest
    | '\x7b' :: rest => skipFrom fuel .firstItem (.object :: frames) rest
    | '\x22' :: rest => do skipFrom fuel .item frames (← skipString rest)
    | 'n' :: rest => do skipFrom fuel .item frames (← expect ['u', 'l', 'l'] rest)
    | 't' :: rest => do skipFrom fuel .item frames (← expect ['r', 'u', 'e'] rest)
    | 'f' :: rest => do skipFrom fuel .item frames (← expect ['a', 'l', 's', 'e'] rest)
    | c :: rest =>
      if startsNumber c then do
        let (_, rest) ← number .malformed (c :: rest)
        skipFrom fuel .item frames rest
      else .error .malformed
  | _ + 1, _, [], text => .ok text
  | fuel + 1, next, frame :: frames, text =>
    let start (text : List Char) : Except Fault (List Char) :=
      match frame with
      | .list => skipFrom fuel .value (frame :: frames) text
      | .object => do skipFrom fuel .value (frame :: frames) (← skipKey text)
    match skipBlank text with
    | [] => .error .truncated
    | c :: rest =>
      if c = frame.close then skipFrom fuel .item frames rest
      else
        match next with
        | .firstItem => start (c :: rest)
        | _ => if c = ',' then start rest else .error .malformed

/-- What follows a value. -/
def skipValue (text : List Char) : Except Fault (List Char) :=
  skipFrom (2 * text.length + 2) .value [] text

end Colourway.Json
