/-
  What can be asked of the program on its command line: to list the colour maps, to write out
  the stops of one, or to sample its shades.
-/
import Colourway.Command.Options
import Colourway.Number.Decimal

namespace Colourway.Command

/-- How a map is to be sampled. -/
structure Sampling where
  name : String
  min : Float
  max : Float
  steps : Nat
  offset : Float
  looped : Bool
  /-- The code of the shade of zero. -/
  background : Option String

inductive Task where
  | list
  | resolve (name : String)
  | sample (sampling : Sampling)

/-- A task, and what holds for all of them. -/
structure Request where
  /-- The file that holds a colour sheet. -/
  sheet : Option String
  strict : Bool
  verbosity : Nat
  task : Task

/-- Any text. -/
def anyValue : Effect := .takesValue (fun _ => true) false

/-- A double. -/
def doubleValue : Effect := .takesValue (fun text => (Decimal.ofText? text).isSome) true

/-- The greatest number of steps that can be asked for. -/
def maxSteps : Nat := 0xFFFFFFFFFFFFFFFF

/-- A number of steps. -/
def steps? (text : String) : Option Nat :=
  (Decimal.natural? text.toList).filter (· ≤ maxSteps)

def helpFlag : Flag := ⟨"help", some 'h', .help⟩

def listName : String := "list"

def resolveName : String := "resolve"

def sampleName : String := "sample"

def helpName : String := "help"

/-- The names of the tasks. -/
def taskNames : List String := [listName, resolveName, sampleName]

/-- The words before the task. -/
def mainGrammar : Grammar where
  flags := [
    ⟨"colours", some 'c', .takesValue (fun path => !path.isEmpty) false⟩,
    ⟨"strict", none, .switch⟩,
    ⟨"verbose", some 'v', .counter⟩,
    helpFlag,
    ⟨"version", some 'V', .version⟩]
  operands := 0
  subcommands := taskNames ++ [helpName]

def listGrammar : Grammar := ⟨[helpFlag], 0, []⟩

def resolveGrammar : Grammar := ⟨[helpFlag], 1, []⟩

def sampleGrammar : Grammar where
  flags := [
    ⟨"min", none, doubleValue⟩,
    ⟨"max", none, doubleValue⟩,
    ⟨"steps", some 's', .takesValue (fun text => (steps? text).isSome) false⟩,
    ⟨"offset", none, doubleValue⟩,
    ⟨"loop", none, .switch⟩,
    ⟨"background", none, anyValue⟩,
    helpFlag]
  operands := 1
  subcommands := []

/-- The double given to an option. -/
def doubleOf (given : Given) (name : String) (default : Float) : Float :=
  ((given.value? name).bind Decimal.ofText?).getD default

/-- What is asked for by a task's name and the words behind it. -/
def readTask (name : String) (words : List String) : Except Halt Task := do
  if name = listName then
    let _ ← readGiven listGrammar words
    .ok .list
  else if name = resolveName then
    match (← readGiven resolveGrammar words).1.operands with
    | [operand] => .ok (.resolve operand)
    | _ => .error .misuse
  else if name = sampleName then
    let (given, _) ← readGiven sampleGrammar words
    match given.operands with
    | [operand] =>
      .ok <| .sample {
        name := operand
        min := doubleOf given "min" 0
        max := doubleOf given "max" 1
        steps := ((given.value? "steps").bind steps?).getD 11
        offset := doubleOf given "offset" 0
        looped := given.count "loop" != 0
        background := given.value? "background" }
    | _ => .error .misuse
  else
    -- help on a task, or on nothing in particular
    match words with
    | [] => .error .help
    | [task] => .error (if taskNames.contains task || task = helpName then .help else .misuse)
    | _ => .error .misuse

/-- What a command line asks for. -/
def Request.read (words : List String) : Except Halt Request := do
  match ← readGiven mainGrammar words with
  | (given, some (name, words)) =>
    .ok {
      sheet := given.value? "colours"
      strict := given.count "strict" != 0
      verbosity := given.count "verbose"
      task := ← readTask name words }
  | (_, none) => .error .misuse

end Colourway.Command
