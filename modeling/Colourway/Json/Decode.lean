/-
  Colours, stops, gradients and adjustments from JSON.

  A colour or a stop is an object with the fields `r`, `g`, `b` and `a`, or a list of these
  four; other fields are passed over. A gradient is a list of stops. An adjustment is its
  keyword, alone or as the one field of an object, whose value is null.
-/
import Colourway.Colour.Adjustment
import Colourway.Gradient.Basic
import Colourway.Json.Scan

namespace Colourway.Json

/-- The fault of a text whose next value is of another kind than wanted: what is wrong with
the value, if anything is, comes first. -/
def unsuited (text : List Char) : Fault :=
  let faultOf {α : Type} : Except Fault α → Fault
    | .ok _ => .unsuited
    | .error fault => fault
  match text with
  | [] => .truncated
  | '[' :: _ | '\x7b' :: _ => .unsuited
  | '\x22' :: rest => faultOf (string rest)
  | 'n' :: rest => faultOf (expect ['u', 'l', 'l'] rest)
  | 't' :: rest => faultOf (expect ['r', 'u', 'e'] rest)
  | 'f' :: rest => faultOf (expect ['a', 'l', 's', 'e'] rest)
  | c :: _ => if startsNumber c then faultOf (finiteNumber text) else .malformed

/-- A number, of whatever kind. -/
def anyNumber (text : List Char) : Except Fault (Number × List Char) :=
  match skipBlank text with
  | c :: rest =>
    if startsNumber c then finiteNumber (c :: rest) else .error (unsuited (c :: rest))
  | [] => .error .truncated

/-- A whole number from 0 to 255. -/
def byte (text : List Char) : Except Fault (UInt8 × List Char) := do
  let (n, rest) ← anyNumber text
  let size := Decimal.ofDigits n.literal.whole
  if n.isWhole && !n.literal.negative && size ≤ 255 then .ok (size.toUInt8, rest)
  else .error .unsuited

/-- A double. -/
def double (text : List Char) : Except Fault (Float × List Char) := do
  let (n, rest) ← anyNumber text
  .ok (n.toFloat, rest)

/-! ## Lists -/

/-- The text of the next item of a list; none at the end of the list. -/
def item? (isFirst : Bool) (text : List Char) : Except Fault (Option (List Char)) :=
  match skipBlank text with
  | [] => .error .truncated
  | ']' :: _ => .ok none
  | c :: rest =>
    if isFirst then .ok (some (c :: rest))
    else if c = ',' then
      match skipBlank rest with
      | [] => .error .truncated
      | ']' :: _ => .error .malformed
      | text => .ok (some text)
    else .error .malformed

/-- What follows the end of a list or an object. -/
def close (frame : Frame) (text : List Char) : Except Fault (List Char) :=
  match skipBlank text with
  | [] => .error .truncated
  | c :: rest => if c = frame.close then .ok rest else .error .malformed

/-- The items of a list, as many as there are. The fuel is to be greater than the length of the
text. -/
def items {α : Type} (one : Scan α) : Nat → Bool → Scan (List α)
  | 0, _, _ => .error .truncated
  | fuel + 1, isFirst, text => do
    match ← item? isFirst text with
    | none => .ok ([], text)
    | some text =>
      let (x, rest) ← one text
      let (xs, rest) ← items one fuel false rest
      .ok (x :: xs, rest)

/-- The next item of a list, which has to be there. -/
def nextItem {α : Type} (one : Scan α) (isFirst : Bool) (text : List Char) :
    Except Fault (α × List Char) := do
  match ← item? isFirst text with
  | none => .error .unsuited
  | some text => one text

/-! ## Objects -/

/-- The key of the next field of an object; none at the end of the object. -/
def key? (isFirst : Bool) (text : List Char) : Except Fault (Option (List Char) × List Char) :=
  let read (text : List Char) : Except Fault (Option (List Char) × List Char) :=
    match text with
    | [] => .error .truncated
    | '\x22' :: rest => do
      let (key, rest) ← string rest
      .ok (some key, rest)
    | _ => .error .malformed
  match skipBlank text with
  | [] => .error .truncated
  | '\x7d' :: rest => .ok (none, '\x7d' :: rest)
  | c :: rest =>
    if isFirst then read (c :: rest)
    else if c = ',' then read (skipBlank rest)
    else .error .malformed

/-- What follows the colon behind a key. -/
def colon (text : List Char) : Except Fault (List Char) := expect [':'] (skipBlank text)

/-- The names of the four channels. -/
def channelNames : List Char := ['r', 'g', 'b', 'a']

/-- The channels among the fields of an object; `found` holds those already read. The fuel is
to be greater than the length of the text. -/
def channelFields {α : Type} (one : Scan α) :
    Nat → Bool → List (Char × α) → Scan (List (Char × α))
  | 0, _, _, _ => .error .truncated
  | fuel + 1, isFirst, found, text => do
    match ← key? isFirst text with
    | (none, rest) => .ok (found, rest)
    | (some key, rest) =>
      match channelNames.find? (key = [·]) with
      | some name =>
        if (found.lookup name).isSome then .error .unsuited
        else
          let (x, rest) ← one (← colon rest)
          channelFields one fuel false ((name, x) :: found) rest
      | none => channelFields one fuel false found (← skipValue (← colon rest))

/-- Four channels, in an object or in a list. -/
def channels {α : Type} (one : Scan α) (text : List Char) :
    Except Fault ((α × α × α × α) × List Char) :=
  match skipBlank text with
  | '[' :: rest => do
    let (r, rest) ← nextItem one true rest
    let (g, rest) ← nextItem one false rest
    let (b, rest) ← nextItem one false rest
    let (a, rest) ← nextItem one false rest
    .ok ((r, g, b, a), ← close .list rest)
  | '\x7b' :: rest => do
    let (found, rest) ← channelFields one (rest.length + 1) true [] rest
    match found.lookup 'r', found.lookup 'g', found.lookup 'b', found.lookup 'a' with
    | some r, some g, some b, some a => .ok ((r, g, b, a), ← close .object rest)
    | _, _, _, _ => .error .unsuited
  | text => .error (unsuited text)

/-! ## What a whole text stands for -/

def colour (text : List Char) : Except Fault (Colour × List Char) := do
  let ((r, g, b, a), rest) ← channels byte text
  .ok (⟨r, g, b, a⟩, rest)

def stop (text : List Char) : Except Fault (Stop × List Char) := do
  let ((r, g, b, a), rest) ← channels double text
  .ok (⟨r, g, b, a⟩, rest)

def gradient (text : List Char) : Except Fault (Gradient × List Char) :=
  match skipBlank text with
  | '[' :: rest => do
    let (stops, rest) ← items stop (rest.length + 1) true rest
    let rest ← close .list rest
    match Gradient.ofStops? stops with
    | some g => .ok (g, rest)
    | none => .error .unsuited
  | text => .error (unsuited text)

/-- The rest of the keyword of an adjustment. -/
def keyword (text : List Char) : Except Fault (Adjustment × List Char) := do
  let (word, rest) ← string text
  match Adjustment.all.find? (·.keyword.toList = word) with
  | some m => .ok (m, rest)
  | none => .error .unsuited

def adjustment (text : List Char) : Except Fault (Adjustment × List Char) :=
  match skipBlank text with
  | '\x22' :: rest => keyword rest
  | '\x7b' :: rest =>
    match skipBlank rest with
    | '\x22' :: rest => do
      let (m, rest) ← keyword rest
      match skipBlank (← colon rest) with
      | 'n' :: rest =>
        let rest ← expect ['u', 'l', 'l'] rest
        .ok (m, ← close .object rest)
      | text => .error (unsuited text)
    | [] => .error .truncated
    | _ => .error .malformed
  | [] => .error .truncated
  | _ => .error .malformed

/-- What a whole text stands for, with nothing but blanks behind it. -/
def whole {α : Type} (one : Scan α) (text : String) : Except Fault α := do
  let (x, rest) ← one text.toList
  if (skipBlank rest).isEmpty then .ok x else .error .malformed

end Colourway.Json
