/-
  Reading a recipe. Letter case does not matter: the words are looked for in the recipe's
  lower case. Characters may change their length on the way, so `origin` leads from an offset
  in the lower case back to the character it comes from; `wordsOf_eq` says that this is where
  words are told to stand.

  Stray characters are passed over, or refused, as the policy says.
-/
import Colourway.Journal
import Colourway.Recipe.Draft

namespace Colourway.Recipe

/-- What to do about characters that belong to no word. -/
inductive Policy where
  /-- Pass over them. -/
  | lenient
  /-- Refuse the recipe. -/
  | strict
  deriving DecidableEq

/-- The offset of the character whose lower case covers the given offset in the lower case of
the whole text. Offsets count bytes. -/
def origin : List Char → Nat → Nat
  | [], _ => 0
  | c :: text, offset =>
    let width := byteLength (Text.lowerChar c)
    if offset < width then 0 else c.utf8Size + origin text (offset - width)

/-- The origins of all offsets in the lower case of a text that starts at `offset`. -/
def originsFrom (offset : Nat) : List Char → List Nat
  | [] => []
  | c :: text =>
    List.replicate (byteLength (Text.lowerChar c)) offset ++ originsFrom (offset + c.utf8Size) text

/-- The words of a recipe, each with the offset at which it starts in the recipe as written. -/
def wordsOf (s : Swatches) (text : String) : List (Nat × Word) :=
  let text := text.toList
  let origins := (originsFrom 0 text).toArray
  let size := byteLength text
  (words s (Text.lower text)).map fun place => (origins.getD place.1 size, place.2)

theorem getD_originsFrom (offset i : Nat) (text : List Char) :
    (originsFrom offset text).getD i (offset + byteLength text) = offset + origin text i := by
  induction text generalizing offset i with
  | nil => simp [originsFrom, origin, byteLength]
  | cons c text ih =>
    rw [originsFrom, origin, List.getD_eq_getElem?_getD]
    split
    case isTrue h => simp [List.getElem?_append_left, h]
    case isFalse h =>
      rw [List.getElem?_append_right (by simpa using h), List.length_replicate,
        ← List.getD_eq_getElem?_getD, byteLength, ← Nat.add_assoc, ih, Nat.add_assoc]

theorem wordsOf_eq (s : Swatches) (text : String) :
    wordsOf s text =
      (words s (Text.lower text.toList)).map fun place => (origin text.toList place.1, place.2) := by
  refine List.map_congr_left fun place _ => ?_
  have h := getD_originsFrom 0 place.1 text.toList
  simp only [Nat.zero_add] at h
  simp [← h]

/-- The stray characters among some words. -/
def strays (words : List (Nat × Word)) : List (Nat × Char) :=
  words.filterMap fun place => place.2.stray?.map (place.1, ·)

/-- The gradient that a recipe describes. -/
def read (s : Swatches) (policy : Policy) (text : String) : Except Fault Gradient :=
  let words := wordsOf s text
  match policy, strays words with
  | .strict, (position, character) :: _ => .error (.strayCharacter position character)
  | _, _ => (Draft.ofWords (words.map (·.2))).finish

/-- The note on a character that is passed over. -/
def skipNote (place : Nat × Char) : Note :=
  ⟨.trace, s!"Skipping {Text.quoteChar place.2} at offset {place.1}"⟩

/-- The note on a recipe that was read. -/
def readNote (text : String) (g : Gradient) : Note :=
  ⟨.debug, s!"Parsed colour map {Text.quote text} into {g.length} anchors"⟩

/-- The notes on reading a recipe. -/
def notes (s : Swatches) (policy : Policy) (text : String) : List Note :=
  let skipped := match policy with
    | .lenient => (strays (wordsOf s text)).map skipNote
    | .strict => []
  match read s policy text with
  | .ok g => skipped ++ [readNote text g]
  | .error _ => skipped

end Colourway.Recipe
