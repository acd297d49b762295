/-
  Carrying out what a command line asks for. `run` says all that comes of it: what is written,
  what is noted on the way, and how it ends. The files that it needs are handed to it.
-/
import Colourway.Command.Record
import Colourway.Command.Request
import Colourway.Command.Sample
import Colourway.Json.Encode

namespace Colourway.Command

/-- What comes of a run. -/
structure Outcome where
  output : String
  notes : List Note
  /-- What it failed of, if it did. -/
  failure : Option String

/-- The name and the version of the program. -/
def versionText : String := "colourmap-cli 0.1.0\n"

/-- What can be asked for, in short. -/
def helpText : String :=
  "Usage: colourmap [-c FILE] [--strict] [-v] list\n" ++
  "       colourmap [-c FILE] [--strict] [-v] resolve NAME\n" ++
  "       colourmap [-c FILE] [--strict] [-v] sample NAME [--min N] [--max N] [-s N]\n" ++
  "                 [--offset N] [--loop] [--background CODE]\n"

/-- Numbers in notes are written in full, and of two equally near decimals the greater one. -/
def noteLayout : Layout := ⟨fun _ => true, false, false, .up⟩

/-- Notes of the level are shown at a verbosity. -/
def isShown (verbosity : Nat) : Level → Bool
  | .warn => true
  | .info => 1 ≤ verbosity
  | .debug => 2 ≤ verbosity
  | .trace => 3 ≤ verbosity

/-- The sheet of a file, and the notes on reading it. -/
def readSheet (path : String) (content : Except FileFault String) :
    Except String Sheet × List Note :=
  match content with
  | .error fault => (.error (recordFileFault fault), [])
  | .ok text =>
    match Sheet.read text with
    | .error fault => (.error (recordSheetFault fault), Sheet.notes text)
    | .ok sheet =>
      let note : Note := ⟨.info, s!"Loaded {sheet.colours.size} colours and " ++
        s!"{sheet.maps.size} colour maps from {path}"⟩
      (.ok sheet, Sheet.notes text ++ [note])

/-- The line of a name in the list of maps. -/
def listLine (sheet : Option Sheet) (catalogue : Catalogue) (name : String) : String :=
  let uses := match sheet.bind (·.uses? name) with
    | some u => s!"\ttracks={u.tracks} clicks={u.clicks} keyboard={u.keyboard}"
    | none => ""
  name ++ "\t" ++ (catalogue.recipe? name).getD "" ++ uses ++ "\n"

/-- Lists the maps. -/
def runList (sheet : Option Sheet) (catalogue : Catalogue) : Outcome :=
  ⟨String.join (catalogue.names.map (listLine sheet catalogue)), [], none⟩

/-- Writes out the stops of a map. -/
def runResolve (catalogue : Catalogue) (name : String) : Outcome :=
  let notes := catalogue.resolveNotes name
  match catalogue.resolve name with
  | .ok g => ⟨Json.ofGradientInLines g ++ "\n", notes, none⟩
  | .error fault => ⟨"", notes, some (recordCatalogueFault fault)⟩

/-- The shade of zero that is asked for; the fault is a code that cannot be read. -/
def readBackground : Option String → Except String (Option Colour)
  | none => .ok none
  | some code =>
    match Colour.ofHexCode? code with
    | some c => .ok (some c)
    | none => .error code

/-- Samples a map. -/
def runSample (catalogue : Catalogue) (s : Sampling) : Outcome :=
  match readBackground s.background with
  | .error code => ⟨"", [], some (Text.quote s!"invalid background colour: {code}")⟩
  | .ok background =>
    let notes := catalogue.resolveNotes s.name
    match catalogue.resolve s.name with
    | .error fault => ⟨"", notes, some (recordCatalogueFault fault)⟩
    | .ok g =>
      let note : Note := ⟨.info, s!"Building cache for {g.length} anchors over " ++
        s!"[{noteLayout.write s.min}, {noteLayout.write s.max})"⟩
      let spread : Spread := ⟨s.min, s.max, s.offset, s.looped, background⟩
      ⟨table (.ofGradient g spread) (samplePoints s.min s.max s.steps), notes ++ [note], none⟩

/-- Carries out a task. -/
def runTask (sheet : Option Sheet) (catalogue : Catalogue) : Task → Outcome
  | .list => runList sheet catalogue
  | .resolve name => runResolve catalogue name
  | .sample sampling => runSample catalogue sampling

/-- Carries out a request. `content` is what the request's file holds, if it names one. -/
def run (request : Request) (content : Except FileFault String) : Outcome :=
  let policy : Recipe.Policy := if request.strict then .strict else .lenient
  let outcome : Outcome :=
    match request.sheet with
    | none => runTask none (Catalogue.basic.withPolicy policy) request.task
    | some path =>
      match readSheet path content with
      | (.error failure, notes) => ⟨"", notes, some failure⟩
      | (.ok sheet, notes) =>
        let outcome :=
          runTask (some sheet) ((Catalogue.ofSheet sheet).withPolicy policy) request.task
        { outcome with notes := notes ++ outcome.notes }
  { outcome with notes := outcome.notes.filter fun note => isShown request.verbosity note.level }

end Colourway.Command
