/-
  The words of a recipe. Words follow each other without anything in between, so a recipe is
  cut from left to right: at each place the first kind that fits makes the next word, in the
  order

  * the longest colour name there is;
  * a hash sign and a colour code, the longest one;
  * a word for an adjustment;
  * a word that multiplies;
  * `to`, the transition;
  * a single stray character.

  A piece keeps the text of its word. `flatMap_text_scan` says that the pieces of a text,
  put together again, are the text: none is skipped, and no two overlap.
-/
import Colourway.Colour.Adjustment
import Colourway.Colour.HexCode
import Colourway.Recipe.Multiplier
import Colourway.Swatches

namespace Colourway.Recipe

inductive Word where
  | colour (c : Colour)
  | adjustment (m : Adjustment)
  | multiplier (n : Count)
  | transition
  | stray (character : Char)
  deriving DecidableEq

/-- The character of a stray one. -/
def Word.stray? : Word → Option Char
  | .stray c => some c
  | _ => none

/-- A word and the text it was read from. -/
structure Piece where
  word : Word
  text : List Char
  deriving DecidableEq

/-- The word for a transition. -/
def transitionWord : String := "to"

/-! ## The kinds of words at the start of a text -/

def colourName? (s : Swatches) (text : List Char) : Option Piece :=
  (s.longestAtStart? text).map fun entry => ⟨.colour entry.2, entry.1.toList⟩

def colourCode? : List Char → Option Piece
  | '#' :: text =>
    (HexCode.readDigits? text).map fun code => ⟨.colour code.2, '#' :: text.take code.1⟩
  | _ => none

def adjustment? (text : List Char) : Option Piece :=
  (Adjustment.all.find? fun m => m.keyword.toList.isPrefixOf text).map
    fun m => ⟨.adjustment m, m.keyword.toList⟩

def multiplier? (text : List Char) : Option Piece :=
  (Multiplier.words.find? fun entry => entry.1.toList.isPrefixOf text).map
    fun entry => ⟨.multiplier entry.2, entry.1.toList⟩

def transition? (text : List Char) : Option Piece :=
  if transitionWord.toList.isPrefixOf text then some ⟨.transition, transitionWord.toList⟩ else none

/-- The word at the start of a text, if there is one. -/
def word? (s : Swatches) (text : List Char) : Option Piece :=
  (colourName? s text).or <| (colourCode? text).or <| (adjustment? text).or <|
    (multiplier? text).or (transition? text)

/-- The first piece of a text, which may be a stray character. -/
def firstPiece (s : Swatches) (c : Char) (text : List Char) : Piece :=
  (word? s (c :: text)).getD ⟨.stray c, [c]⟩

/-! ## The text of the first piece -/

theorem foldl_longer_mem {entries : List (String × Colour)} {best : Option (String × Colour)}
    {e : String × Colour} (h : entries.foldl Swatches.longer best = some e) :
    best = some e ∨ e ∈ entries := by
  induction entries generalizing best with
  | nil => exact .inl h
  | cons x xs ih =>
    rcases ih h with hb | hm
    · unfold Swatches.longer at hb
      split at hb
      · split at hb
        · exact .inl hb
        · cases hb; exact .inr List.mem_cons_self
      · cases hb; exact .inr List.mem_cons_self
    · exact .inr (List.mem_cons_of_mem _ hm)

/-- A name found at the start of a text is one of the swatches, is not empty and stands there. -/
theorem of_longestAtStart? {s : Swatches} {text : List Char} {e : String × Colour}
    (h : s.longestAtStart? text = some e) :
    e ∈ s.entries ∧ e.1.toList ≠ [] ∧ e.1.toList <+: text := by
  rcases foldl_longer_mem h with hb | hm
  · cases hb
  · rw [List.mem_filter] at hm
    simp only [Swatches.opens, Bool.and_eq_true, Bool.not_eq_true', List.isPrefixOf_iff_prefix,
      String.isEmpty_eq_false_iff] at hm
    exact ⟨hm.1, by simpa using hm.2.1, hm.2.2⟩

theorem adjustment_keyword_ne_nil (m : Adjustment) : m.keyword.toList ≠ [] := by
  cases m <;> decide

theorem multiplier_word_ne_nil {e : String × Count} (h : e ∈ Multiplier.words) :
    e.1.toList ≠ [] := by
  revert e
  decide

/-- The text of a word is not empty, and the text it was found in starts with it. -/
theorem text_of_word? {s : Swatches} {text : List Char} {p : Piece} (h : word? s text = some p) :
    p.text ≠ [] ∧ p.text <+: text := by
  simp only [word?, Option.or_eq_some_iff] at h
  rcases h with h | ⟨_, h | ⟨_, h | ⟨_, h | ⟨_, h⟩⟩⟩⟩
  · obtain ⟨e, he, rfl⟩ := Option.map_eq_some_iff.1 h
    exact (of_longestAtStart? he).2
  · unfold colourCode? at h
    split at h
    · obtain ⟨code, hc, rfl⟩ := Option.map_eq_some_iff.1 h
      exact ⟨by simp, by simpa using List.take_prefix _ _⟩
    · cases h
  · obtain ⟨m, hm, rfl⟩ := Option.map_eq_some_iff.1 h
    have hp := List.find?_some hm
    exact ⟨adjustment_keyword_ne_nil m, List.isPrefixOf_iff_prefix.1 hp⟩
  · obtain ⟨e, he, rfl⟩ := Option.map_eq_some_iff.1 h
    have hp := List.find?_some he
    exact ⟨multiplier_word_ne_nil (List.mem_of_find?_eq_some he),
      List.isPrefixOf_iff_prefix.1 hp⟩
  · unfold transition? at h
    split at h
    case isTrue ht => cases h; exact ⟨by decide, List.isPrefixOf_iff_prefix.1 ht⟩
    case isFalse => cases h

theorem text_firstPiece (s : Swatches) (c : Char) (text : List Char) :
    (firstPiece s c text).text ≠ [] ∧ (firstPiece s c text).text <+: c :: text := by
  unfold firstPiece
  cases h : word? s (c :: text) with
  | none => exact ⟨by simp, by simp⟩
  | some p => exact text_of_word? h

/-! ## Cutting a text into pieces -/

/-- The pieces of what follows the next `n` characters, which belong to a piece already cut. -/
def scanAfter (s : Swatches) : Nat → List Char → List Piece
  | _, [] => []
  | n + 1, _ :: text => scanAfter s n text
  | 0, c :: text =>
    let piece := firstPiece s c text
    piece :: scanAfter s (piece.text.length - 1) text

/-- The pieces of a text. -/
def scan (s : Swatches) (text : List Char) : List Piece := scanAfter s 0 text

theorem scanAfter_eq_scan_drop (s : Swatches) (n : Nat) (text : List Char) :
    scanAfter s n text = scan s (text.drop n) := by
  induction text generalizing n with
  | nil => simp [scan, scanAfter]
  | cons c text ih =>
    cases n with
    | zero => rfl
    | succ n => rw [scanAfter, ih, List.drop_succ_cons]

@[simp] theorem scan_nil (s : Swatches) : scan s [] = [] := rfl

theorem scan_cons (s : Swatches) (c : Char) (text : List Char) :
    scan s (c :: text) =
      firstPiece s c text :: scan s ((c :: text).drop (firstPiece s c text).text.length) := by
  have hne := List.length_pos_iff.2 (text_firstPiece s c text).1
  rw [scan, scanAfter, scanAfter_eq_scan_drop]
  obtain ⟨k, hk⟩ : ∃ k, (firstPiece s c text).text.length = k + 1 :=
    ⟨_, (Nat.succ_pred_eq_of_pos hne).symm⟩
  rw [hk]
  rfl

theorem flatMap_text_scan (s : Swatches) (text : List Char) :
    (scan s text).flatMap (·.text) = text := by
  induction hn : text.length using Nat.strongRecOn generalizing text with
  | ind n ih =>
    cases text with
    | nil => rfl
    | cons c text =>
      obtain ⟨hne, rest, hrest⟩ := text_firstPiece s c text
      have hpos := List.length_pos_iff.2 hne
      have hlen := congrArg List.length hrest
      simp only [List.length_append] at hlen
      rw [scan_cons, ← hrest, List.drop_left, List.flatMap_cons,
        ih rest.length (by rw [← hn, ← hlen]; omega) rest rfl]

/-! ## Where the pieces stand -/

/-- The length of a text in bytes. -/
def byteLength : List Char → Nat
  | [] => 0
  | c :: text => c.utf8Size + byteLength text

/-- The words of some pieces, each with the offset in bytes at which it starts; the first one
starts at `offset`. -/
def placeFrom (offset : Nat) : List Piece → List (Nat × Word)
  | [] => []
  | p :: ps => (offset, p.word) :: placeFrom (offset + byteLength p.text) ps

/-- The words of a text, each with its offset in bytes. -/
def words (s : Swatches) (text : List Char) : List (Nat × Word) := placeFrom 0 (scan s text)

end Colourway.Recipe
