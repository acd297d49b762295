/-
  The lines of a colour sheet. A line sets a key to a value, with an equals sign between
  them; blank lines say nothing. The key's segments, set apart by dots, say what is set:

  * `colour.<name>` gives a colour to a name, by its code;
  * `map.<name>.colour` gives a map its recipe, and further segments behind `colour` give
    one to an alternate of the map instead;
  * `map.<name>.tracks`, `.clicks` and `.keyboard` say where the map may be used.

  A line that sets nothing else known is passed over. `Entry.ofLine` fails only where there is
  no equals sign, or no name behind `colour` or `map`, or no field behind the name of a map.
-/
import Colourway.Colour.HexCode
import Colourway.Journal
import Colourway.Text.Lines
import Colourway.Text.Quoted
import Colourway.Text.Split

namespace Colourway.Sheet

/-- What can be wrong with a line. Lines are counted from 1. -/
inductive Fault where
  /-- The line has no equals sign. -/
  | missingSeparator (line : Nat)
  /-- The key does not say what is set. -/
  | incompleteKey (line : Nat) (key : String)
  deriving DecidableEq

/-- The fault in words. -/
def Fault.message : Fault → String
  | .missingSeparator line => s!"line {line}: expected key=value"
  | .incompleteKey line key => s!"line {line}: incomplete key {Text.quote key}"

/-- Where a colour map may be used. -/
inductive Use where
  | tracks
  | clicks
  | keyboard
  deriving DecidableEq

/-- What a line says of a map. -/
inductive Field where
  /-- A recipe for the alternate of that path, which is the map itself if the path is empty. -/
  | recipe (path : List String) (text : String)
  | use (place : Use) (allowed : Bool)
  | unknown (name : String)
  deriving DecidableEq

/-- What a line says. -/
inductive Entry where
  | blank
  | swatch (name : String) (colour : Colour)
  /-- A name is to have a colour, but the value is no code. -/
  | badSwatch (value : String)
  | map (name : String) (field : Field)
  | unknown (key : String)
  deriving DecidableEq

/-- A value that says yes: its first letter is that of `true` or of `yes`. -/
def saysYes (value : String) : Bool :=
  match value.toList.head? with
  | some c => c.toLower = 't' || c.toLower = 'y'
  | none => false

/-- The field of a folded name, with the segments behind it. -/
def Field.ofName (name : String) (path : List String) (value : String) : Field :=
  if name = "colour" then .recipe path value
  else if name = "tracks" then .use .tracks (saysYes value)
  else if name = "clicks" then .use .clicks (saysYes value)
  else if name = "keyboard" then .use .keyboard (saysYes value)
  else .unknown name

namespace Entry

/-- The entry of a key behind `colour`. -/
def ofColour? (value : String) : List String → Option Entry
  | name :: _ =>
    if name = "" then none
    else
      match Colour.ofHexCode? value with
      | some c => some (.swatch name c)
      | none => some (.badSwatch value)
  | [] => none

/-- The entry of a key behind `map`. -/
def ofMap? (value : String) : List String → Option Entry
  | name :: field :: path =>
    if name = "" then none else some (.map name (.ofName (Text.fold field) path value))
  | _ => none

/-- The entry that sets a key; none if the key is incomplete. -/
def ofKey? (key : String) (value : String) : Option Entry :=
  match (Text.segments '.' key.toList).map String.ofList with
  | kind :: path =>
    if kind = "colour" then ofColour? value path
    else if kind = "map" then ofMap? value path
    else some (.unknown key)
  | [] => some (.unknown key)

/-- The entry of a line. -/
def ofLine (number : Nat) (line : List Char) : Except Fault Entry :=
  if (Text.trim line).isEmpty then .ok .blank
  else
    match Text.cutAt? '=' line with
    | none => .error (.missingSeparator number)
    | some (left, right) =>
      let key := String.ofList (Text.trim left)
      match ofKey? key (String.ofList (Text.trim right)) with
      | some entry => .ok entry
      | none => .error (.incompleteKey number key)

/-- The note on an entry that is passed over. -/
def note? (number : Nat) : Entry → Option Note
  | .badSwatch value =>
    some ⟨.warn, s!"Line {number}: {Text.quote value} is not a hex colour, skipping"⟩
  | .unknown key => some ⟨.debug, s!"Line {number}: ignoring unknown key {Text.quote key}"⟩
  | .map _ (.unknown field) =>
    some ⟨.debug, s!"Line {number}: ignoring unknown map field {Text.quote field}"⟩
  | _ => none

end Entry

end Colourway.Sheet
