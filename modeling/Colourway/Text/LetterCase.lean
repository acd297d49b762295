/-
  Letter case. Three ways of disregarding it are in use, from the narrowest to the widest:

  * `sameIgnoringCase` compares two words letter by letter and knows ASCII letters only;
  * `lower` replaces every character by its lower case, one at a time;
  * `fold` does the same, except that a capital sigma that ends a word becomes a final sigma.

  A character's lower case is one character, but for capital I with a dot above, which
  becomes a plain i and a combining dot.
-/
import Colourway.Text.LetterCase.Table

namespace Colourway.Text

/-- The lower case of a capital in one of the runs. -/
def lowerInRuns? (n : Nat) : List CapitalRun → Option Nat
  | [] => none
  | run :: runs =>
    if run.first ≤ n ∧ n ≤ run.last ∧ (n - run.first) % run.step = 0 then
      some (n + run.shift).toNat
    else lowerInRuns? n runs

/-- The lower case of a character. -/
def lowerChar (c : Char) : List Char :=
  if c.toNat < 0x80 then [c.toLower]
  else if c.toNat = 0x130 then ['i', Char.ofNat 0x307]
  else match lowerInRuns? c.toNat capitalRuns with
    | some n => [Char.ofNat n]
    | none => [c]

theorem lowerChar_ne_nil (c : Char) : lowerChar c ≠ [] := by
  unfold lowerChar
  split
  · simp
  · split
    · simp
    · split <;> simp

/-- Every character replaced by its lower case. -/
def lower (text : List Char) : List Char := text.flatMap lowerChar

theorem lower_append (s t : List Char) : lower (s ++ t) = lower s ++ lower t := by
  simp [lower]

/-- Two words are the same but for the case of their ASCII letters. -/
def sameIgnoringCase (s t : String) : Bool :=
  s.toList.map Char.toLower == t.toList.map Char.toLower

/-- The first character that does not stand inside a word has a case. -/
def meetsLetter (text : List Char) : Bool :=
  match text.dropWhile (inRanges caseIgnorableRanges) with
  | c :: _ => inRanges casedRanges c
  | [] => false

/-- Folds the rest of a text; `before` holds what precedes it, nearest character first. -/
def foldAfter (before : List Char) : List Char → List Char
  | [] => []
  | c :: rest =>
    (if c = 'Σ' then [if meetsLetter before && !meetsLetter rest then 'ς' else 'σ']
      else lowerChar c) ++ foldAfter (c :: before) rest

/-- The text in lower case, a capital sigma at the end of a word becoming a final sigma. -/
def fold (text : String) : String := String.ofList (foldAfter [] text.toList)

end Colourway.Text
