/-
  Catalogues of colour maps. A name is looked up among the maps that were added, then among
  the presets; a name found in neither is taken for a recipe itself, so that a gradient needs
  no name to be used.
-/
import Colourway.Catalogue.Preset
import Colourway.Recipe.Reading
import Colourway.Sheet.Basic

namespace Colourway

/-- Added colours and maps, the maps by folded names, and what to do about stray characters. -/
structure Catalogue where
  swatches : Swatches
  maps : NameTable String
  policy : Recipe.Policy

namespace Catalogue

/-- Why a name leads to no gradient. -/
inductive Fault where
  /-- The recipe cannot be read. -/
  | malformed (recipe : String) (reason : Recipe.Fault)
  /-- The recipe has fewer stops than a map needs. -/
  | tooFewStops (name : String) (found : Nat)
  /-- The name is not listed, and as a recipe it has no colour. -/
  | unknownName (name : String)
  deriving DecidableEq

/-- The least number of stops of a map. -/
def minStops : Nat := 2

/-- The fault in words. -/
def Fault.message : Fault → String
  | .malformed recipe reason =>
    s!"invalid colour map {Text.quote recipe}: {reason.message}"
  | .tooFewStops name found =>
    s!"not enough colours to generate colour map {Text.quote name}: " ++
      s!"got {found}, need at least {minStops}"
  | .unknownName name => s!"unknown colour map: {Text.quote name}"

/-- The gradient of a recipe. -/
def readRecipe (s : Swatches) (policy : Recipe.Policy) (text : String) : Except Fault Gradient :=
  (Recipe.read s policy text).mapError (.malformed text)

/-! ## What is in a catalogue -/

/-- Nothing but the presets. -/
def basic : Catalogue := ⟨.basic, .empty, .lenient⟩

/-- The catalogue with a colour added. -/
def insertColour (k : Catalogue) (name : String) (c : Colour) : Catalogue :=
  { k with swatches := k.swatches.insert name c }

/-- The catalogue with a map added, in place of the one of the same name. -/
def insertMap (k : Catalogue) (name : String) (recipe : String) : Catalogue :=
  { k with maps := k.maps.insert (Text.fold name) recipe }

/-- The catalogue with another policy. -/
def withPolicy (k : Catalogue) (policy : Recipe.Policy) : Catalogue := { k with policy }

/-- The catalogue with the map of a sheet, if it has a recipe. -/
def addMap (k : Catalogue) (m : Sheet.Map) : Catalogue :=
  match m.recipe with
  | some recipe => k.insertMap m.name recipe
  | none => k

/-- The catalogue of a sheet: its colours, and its maps with a recipe. -/
def ofSheet (s : Sheet) : Catalogue :=
  s.maps.values.foldl addMap <|
    s.colours.values.foldl (fun k swatch => k.insertColour swatch.name swatch.colour) basic

/-- The names in the catalogue: those that were added, in order, and the presets that none of
them hides. -/
def names (k : Catalogue) : List String :=
  k.maps.names ++ (Preset.all.map (·.1)).filter fun name => (k.maps.get? name).isNone

/-! ## From a name to a gradient -/

/-- Where the recipe of a name comes from. -/
inductive Source where
  | added (recipe : String)
  | preset (recipe : String)
  /-- The name is the recipe. -/
  | itself
  deriving DecidableEq

/-- The source of a name. -/
def source (k : Catalogue) (name : String) : Source :=
  match k.maps.get? (Text.fold name) with
  | some recipe => .added recipe
  | none =>
    match Preset.find? name with
    | some recipe => .preset recipe
    | none => .itself

/-- The recipe listed under a name. -/
def recipe? (k : Catalogue) (name : String) : Option String :=
  match k.source name with
  | .added recipe | .preset recipe => some recipe
  | .itself => none

/-- A gradient fit for a map of that name. -/
def checkStops (name : String) (g : Gradient) : Except Fault Gradient :=
  if g.length < minStops then .error (.tooFewStops name g.length) else .ok g

/-- The gradient of a name. -/
def resolve (k : Catalogue) (name : String) : Except Fault Gradient :=
  match k.source name with
  | .added recipe | .preset recipe =>
    (readRecipe k.swatches k.policy recipe).bind (checkStops name)
  | .itself =>
    match Recipe.read k.swatches k.policy name with
    | .ok g => checkStops name g
    | .error .noColours => .error (.unknownName name)
    | .error reason => .error (.malformed name reason)

/-- The note on where the recipe of a name comes from. -/
def sourceNote (name : String) : Source → Note
  | .added recipe => ⟨.debug, s!"Using user colour map {Text.quote name}: {recipe}"⟩
  | .preset recipe => ⟨.debug, s!"Using built-in colour map {Text.quote name}: {recipe}"⟩
  | .itself =>
    ⟨.debug, s!"No colour map named {Text.quote name}, parsing it as a descriptor"⟩

/-- The notes on finding the gradient of a name. -/
def resolveNotes (k : Catalogue) (name : String) : List Note :=
  sourceNote name (k.source name) ::
    Recipe.notes k.swatches k.policy ((k.recipe? name).getD name)

end Catalogue

end Colourway
