/-
  Words that multiply what follows them.
-/
import Colourway.Number.Count
import Colourway.Text.LetterCase

namespace Colourway.Multiplier

/-- The words and their numbers. -/
def words : List (String × Count) := [
  ("single", 1),
  ("double", 2),
  ("triple", 3),
  ("quadruple", 4),
  ("quintuple", 5),
  ("pentuple", 5),
  ("sextuple", 6),
  ("hextuple", 6),
  ("septuple", 7),
  ("heptuple", 7),
  ("octuple", 8),
  ("nonuple", 9),
  ("decuple", 10),
  ("undecuple", 11),
  ("hendecuple", 11),
  ("duodecuple", 12),
  ("tredecuple", 13)]

/-- The number of a word, whatever the case of its letters. -/
def ofWord? (word : String) : Option Count :=
  (words.find? fun entry => Text.sameIgnoringCase entry.1 word).map (·.2)

end Colourway.Multiplier
