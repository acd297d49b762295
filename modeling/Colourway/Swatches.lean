/-
  Swatches: the colour names that a recipe may use. Some are known to everyone
  (`Colour.named`); others are added by name, and such a name hides a known one that is
  spelt the same.

  Names are folded when they are added and when they are looked up, so letter case does not
  matter. `longestAtStart?` serves recipes, whose words are not set apart from each other: it
  finds the longest name that a text begins with.
-/
import Colourway.Colour.Basic
import Colourway.NameTable

namespace Colourway

/-- The added colours, under their folded names. -/
structure Swatches where
  added : NameTable Colour

namespace Swatches

/-- Nothing but the colours that everyone knows. -/
def basic : Swatches := ⟨.empty⟩

instance : Inhabited Swatches := ⟨basic⟩

/-- Adds a colour, in place of the one that was added under the same name. -/
def insert (s : Swatches) (name : String) (c : Colour) : Swatches :=
  ⟨s.added.insert (Text.fold name) c⟩

/-- The colour added under a name. -/
def added? (s : Swatches) (name : String) : Option Colour := s.added.get? (Text.fold name)

/-- The colour of a name, an added one before a known one. -/
def get? (s : Swatches) (name : String) : Option Colour :=
  (s.added? name).or (Colour.ofName? (Text.fold name))

/-- Every name with its colour, the added ones first. -/
def entries (s : Swatches) : List (String × Colour) := s.added.entries ++ Colour.named

/-- The text begins with the name, and the name is not empty. -/
def opens (text : List Char) (name : String) : Bool :=
  !name.isEmpty && name.toList.isPrefixOf text

/-- The entry with the longer name; of equally long ones the first. -/
def longer (best : Option (String × Colour)) (entry : String × Colour) :
    Option (String × Colour) :=
  match best with
  | some b => if entry.1.length ≤ b.1.length then best else some entry
  | none => some entry

/-- The longest name that a text begins with, and its colour. The text is taken to be in
lower case. -/
def longestAtStart? (s : Swatches) (text : List Char) : Option (String × Colour) :=
  (s.entries.filter (opens text ·.1)).foldl longer none

end Swatches

end Colourway
