/-
  Faults as the command line reports them: the name of the fault and its particulars, in a
  form for the eyes of whoever mends the program's input.
-/
import Colourway.Catalogue.Basic

namespace Colourway.Command

/-- A name with particulars by name. -/
def record (name : String) (particulars : List (String × String)) : String :=
  let shown := particulars.map fun p => p.1 ++ ": " ++ p.2
  name ++ " \x7b " ++ ", ".intercalate shown ++ " \x7d"

def recordRecipeFault : Recipe.Fault → String
  | .noColours => "NoColours"
  | .trailingTransition => "TrailingEmptyGroup"
  | .tooManyStops found =>
    record "TooManyAnchors" [("found", toString found.val), ("limit", toString Gradient.maxStops)]
  | .strayCharacter position character =>
    record "UnexpectedCharacter"
      [("position", toString position), ("character", Text.quoteChar character)]

def recordCatalogueFault : Catalogue.Fault → String
  | .malformed recipe reason =>
    record "MalformedDescriptor"
      [("descriptor", Text.quote recipe), ("reason", recordRecipeFault reason)]
  | .tooFewStops name found =>
    record "InsufficientAnchors" [("name", Text.quote name), ("found", toString found)]
  | .unknownName name => "UnknownPreset(" ++ Text.quote name ++ ")"

def recordSheetFault : Sheet.Fault → String
  | .missingSeparator line => record "MissingSeparator" [("line", toString line)]
  | .incompleteKey line key =>
    record "IncompleteKey" [("line", toString line), ("key", Text.quote key)]

/-- Why the system does not hand out a file. -/
inductive Refusal where
  | notFound
  | notPermitted
  | notADirectory
  | isADirectory
  | nameTooLong
  | tooManyLinks
  | other
  deriving DecidableEq

namespace Refusal

/-- Every refusal. -/
def all : List Refusal :=
  [.notFound, .notPermitted, .notADirectory, .isADirectory, .nameTooLong, .tooManyLinks, .other]

/-- The number that the system gives to a refusal. -/
def code : Refusal → Nat
  | .notFound => 2
  | .notPermitted => 13
  | .notADirectory => 20
  | .isADirectory => 21
  | .nameTooLong => 36
  | .tooManyLinks => 40
  | .other => 5

/-- The refusal of a number. -/
def ofCode (n : Nat) : Refusal := (all.find? (·.code = n)).getD .other

theorem ofCode_code (r : Refusal) : ofCode r.code = r := by cases r <;> decide

/-- The kind of refusal. -/
def kind : Refusal → String
  | .notFound => "NotFound"
  | .notPermitted => "PermissionDenied"
  | .notADirectory => "NotADirectory"
  | .isADirectory => "IsADirectory"
  | .nameTooLong => "InvalidFilename"
  | .tooManyLinks => "FilesystemLoop"
  | .other => "Uncategorized"

/-- The refusal in words. -/
def message : Refusal → String
  | .notFound => "No such file or directory"
  | .notPermitted => "Permission denied"
  | .notADirectory => "Not a directory"
  | .isADirectory => "Is a directory"
  | .nameTooLong => "File name too long"
  | .tooManyLinks => "Too many levels of symbolic links"
  | .other => "Input/output error"

end Refusal

/-- Why a file cannot be read. -/
inductive FileFault where
  /-- The system refuses. -/
  | refused (refusal : Refusal)
  /-- The file holds something other than text. -/
  | notText

def recordFileFault : FileFault → String
  | .refused refusal =>
    record "Os"
      [("code", toString refusal.code), ("kind", refusal.kind),
        ("message", Text.quote refusal.message)]
  | .notText =>
    record "Error"
      [("kind", "InvalidData"), ("message", Text.quote "stream did not contain valid UTF-8")]

end Colourway.Command
