/-
  The command line: lists colour maps, writes out their stops and samples their shades.
-/
import Colourway.Command.Run

namespace Colourway.Command

/-- The number of a refusal, which may come with its sign turned. -/
def plainCode (code : UInt32) : Nat := min code.toNat (-code).toNat

/-- Why the system does not hand out a file. -/
def fileFaultOf : IO.Error → FileFault
  | .noFileOrDirectory _ code _ | .permissionDenied _ code _ | .inappropriateType _ code _
  | .invalidArgument _ code _ => .refused (.ofCode (plainCode code))
  | _ => .refused .other

/-- What a file holds. -/
def readContent (path : String) : IO (Except FileFault String) := do
  try
    match String.fromUTF8? (← IO.FS.readBinFile path) with
    | some text => return .ok text
    | none => return .error .notText
  catch fault => return .error (fileFaultOf fault)

/-- Shows what came of a run, and returns the exit code. -/
def Outcome.show (outcome : Outcome) : IO UInt32 := do
  for note in outcome.notes do
    IO.eprintln s!"[{note.level.name}] {note.message}"
  IO.print outcome.output
  match outcome.failure with
  | none => return 0
  | some failure =>
    IO.eprintln s!"Error: {failure}"
    return 1

end Colourway.Command

open Colourway.Command in
def main (words : List String) : IO UInt32 := do
  match Request.read words with
  | .error .misuse =>
    IO.eprint helpText
    return 2
  | .error .help =>
    IO.print helpText
    return 0
  | .error .version =>
    IO.print versionText
    return 0
  | .ok request =>
    let content ← match request.sheet with
      | some path => readContent path
      | none => pure (.ok "")
    (run request content).show
