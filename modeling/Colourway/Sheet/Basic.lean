/-
  Colour sheets: named colours and colour maps, as the lines of a text set them. Later lines
  win over earlier ones. Names are looked up without regard to case.

  An alternate of a map is a map of its own, named by the segments of its path in reverse and
  the map's name behind them. It may be used wherever the map may, so it remembers the map as
  its owner.
-/
import Colourway.NameTable
import Colourway.Sheet.Line

namespace Colourway

/-- Which uses a map is allowed. -/
structure Sheet.Uses where
  tracks : Bool := false
  clicks : Bool := false
  keyboard : Bool := false
  deriving DecidableEq

/-- A colour and its name, spelt as in the sheet. -/
structure Sheet.Swatch where
  name : String
  colour : Colour
  deriving DecidableEq

/-- A colour map, its name spelt as in the sheet. -/
structure Sheet.Map where
  name : String
  recipe : Option String
  /-- The folded name of the map whose uses this one shares. -/
  owner : String
  deriving DecidableEq

/-- What a sheet says, by folded names. -/
structure Sheet where
  colours : NameTable Sheet.Swatch
  maps : NameTable Sheet.Map
  uses : NameTable Sheet.Uses

namespace Sheet

/-- The sheet that says nothing. -/
def empty : Sheet := ⟨.empty, .empty, .empty⟩

/-- The uses with one of them set. -/
def Uses.set (u : Uses) (place : Use) (allowed : Bool) : Uses :=
  match place with
  | .tracks => { u with tracks := allowed }
  | .clicks => { u with clicks := allowed }
  | .keyboard => { u with keyboard := allowed }

/-- The name of the alternate of a map. -/
def alternateName (path : List String) (name : String) : String :=
  String.join (path.reverse ++ [name])

/-- The sheet with a map under a name, if there was none, and uses for it. -/
def mention (s : Sheet) (name : String) : Sheet :=
  let key := Text.fold name
  { s with
    maps := s.maps.insertNew key ⟨name, none, key⟩
    uses := s.uses.insertNew key {} }

/-- The sheet after a line about a map that is mentioned already. -/
def setField (s : Sheet) (name : String) : Field → Sheet
  | .recipe path text =>
    let key := Text.fold name
    let alternate := alternateName path name
    if Text.fold alternate = key then
      { s with maps := s.maps.modify key fun m => { m with recipe := some text } }
    else { s with maps := s.maps.insert (Text.fold alternate) ⟨alternate, some text, key⟩ }
  | .use place allowed =>
    { s with uses := s.uses.modify (Text.fold name) fun u => u.set place allowed }
  | .unknown _ => s

/-- The sheet after one more entry. -/
def add (s : Sheet) : Entry → Sheet
  | .swatch name c => { s with colours := s.colours.insert (Text.fold name) ⟨name, c⟩ }
  | .map name field => (s.mention name).setField name field
  | .blank | .badSwatch _ | .unknown _ => s

/-- The sheet of a list of entries. -/
def ofEntries (entries : List Entry) : Sheet := entries.foldl add empty

/-- The lines of a text with their numbers. -/
def numberedLines (text : String) : List (List Char × Nat) := (Text.lines text.toList).zipIdx 1

/-- The entries of a text. -/
def readEntries (text : String) : Except Fault (List Entry) :=
  (numberedLines text).mapM fun line => Entry.ofLine line.2 line.1

/-- The sheet of a text. -/
def read (text : String) : Except Fault Sheet := (readEntries text).map ofEntries

/-- The notes on some lines, up to the first that fails. -/
def lineNotes : List (List Char × Nat) → List Note
  | [] => []
  | line :: lines =>
    match Entry.ofLine line.2 line.1 with
    | .ok entry => (entry.note? line.2).toList ++ lineNotes lines
    | .error _ => []

/-- The note on a sheet that was read. -/
def readNote (s : Sheet) : Note :=
  ⟨.debug, s!"Loaded {s.colours.size} colours and {s.maps.size} colour maps"⟩

/-- The notes on reading a text. -/
def notes (text : String) : List Note :=
  lineNotes (numberedLines text) ++
    match read text with
    | .ok s => [readNote s]
    | .error _ => []

/-! ## Look-up -/

/-- The colour of a name. -/
def colour? (s : Sheet) (name : String) : Option Swatch := s.colours.get? (Text.fold name)

/-- The map of a name. -/
def map? (s : Sheet) (name : String) : Option Map := s.maps.get? (Text.fold name)

/-- Where the map of a name may be used. -/
def uses? (s : Sheet) (name : String) : Option Uses :=
  (s.map? name).bind fun m => s.uses.get? m.owner

end Sheet

end Colourway
