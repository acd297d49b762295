/-
  Options and operands of a command, as they are given on a command line.

  An option is given by its long name behind two hyphens or by its letter behind one; letters
  may stand together. The value of an option stands behind an equals sign, right behind the
  letter, or in the next word. Behind two lone hyphens no word is an option. A word that is
  the name of a subcommand ends the line of the command, and all words behind it belong to
  the subcommand.
-/

namespace Colourway.Command

/-- What an option does. -/
inductive Effect where
  /-- It takes a value. Where `negatives` is set, a negative number in the next word is one. -/
  | takesValue (accepts : String → Bool) (negatives : Bool)
  /-- It is given or it is not. -/
  | switch
  /-- It counts how many times it is given. -/
  | counter
  /-- It asks for help, and nothing else happens. -/
  | help
  /-- It asks for the version, and nothing else happens. -/
  | version

/-- An option by its names. -/
structure Flag where
  name : String
  letter : Option Char
  effect : Effect

/-- What may be given to a command. -/
structure Grammar where
  flags : List Flag
  /-- The number of operands, all of which have to be given. -/
  operands : Nat
  subcommands : List String

/-- What was given to a command. -/
structure Given where
  values : List (String × String)
  /-- The switches and counters, once for each time they were given. -/
  marks : List String
  operands : List String

/-- Why a command line is not carried out. -/
inductive Halt where
  | misuse
  | help
  | version
  deriving DecidableEq

/-- A subcommand and the words behind it. -/
abbrev Rest := Option (String × List String)

namespace Given

def empty : Given := ⟨[], [], []⟩

/-- The value given to an option. -/
def value? (g : Given) (name : String) : Option String := g.values.lookup name

/-- How many times a switch or a counter was given. -/
def count (g : Given) (name : String) : Nat := g.marks.count name

/-- With the value of an option, which must not have one yet. -/
def setValue (g : Given) (flag : Flag) (accepts : String → Bool) (value : String) :
    Except Halt Given :=
  if (g.value? flag.name).isSome || !accepts value then .error .misuse
  else .ok { g with values := (flag.name, value) :: g.values }

/-- With an option that takes no value. -/
def mark (g : Given) (flag : Flag) : Except Halt Given :=
  match flag.effect with
  | .takesValue _ _ => .error .misuse
  | .switch =>
    if g.marks.contains flag.name then .error .misuse
    else .ok { g with marks := flag.name :: g.marks }
  | .counter => .ok { g with marks := flag.name :: g.marks }
  | .help => .error .help
  | .version => .error .version

end Given

/-- The digits of a number behind its sign: a point not at the start, and behind it an
exponent without a sign. -/
def isPlainNumber (text : List Char) : Bool :=
  let isDigits (cs : List Char) : Bool := cs.all Char.isDigit
  let startsExponent (c : Char) : Bool := c = 'e' || c = 'E'
  let mantissa := text.takeWhile fun c => !startsExponent c
  let whole := mantissa.takeWhile Char.isDigit
  let isMantissa := match mantissa.dropWhile Char.isDigit with
    | [] => true
    | '.' :: fraction => !whole.isEmpty && isDigits fraction
    | _ => false
  match text.dropWhile fun c => !startsExponent c with
  | [] => isMantissa
  | _ :: exponent => isMantissa && !mantissa.isEmpty && !exponent.isEmpty && isDigits exponent

/-- What the letters of a word ask for, besides the option that waits for its value. -/
def readLetters (grammar : Grammar) : Given → List Char → Except Halt (Given × Option Flag)
  | given, [] => .ok (given, none)
  | given, c :: letters =>
    match grammar.flags.find? (·.letter = some c) with
    | none => .error .misuse
    | some flag =>
      match flag.effect with
      | .takesValue accepts _ =>
        match letters with
        | [] => .ok (given, some flag)
        | '=' :: value => (given.setValue flag accepts (String.ofList value)).map (·, none)
        | value => (given.setValue flag accepts (String.ofList value)).map (·, none)
      | _ => do readLetters grammar (← given.mark flag) letters

/-- What a long name asks for, with the value behind its equals sign. -/
def readName (grammar : Grammar) (given : Given) (text : List Char) :
    Except Halt (Given × Option Flag) :=
  let name := String.ofList (text.takeWhile (· != '='))
  let value := match text.dropWhile (· != '=') with
    | _ :: value => some (String.ofList value)
    | [] => none
  match grammar.flags.find? (·.name = name) with
  | none => .error .misuse
  | some flag =>
    match flag.effect, value with
    | .takesValue accepts _, some value => (given.setValue flag accepts value).map (·, none)
    | .takesValue _ _, none => .ok (given, some flag)
    | _, some _ => .error .misuse
    | _, none => (given.mark flag).map (·, none)

/-- With one more operand, if the command has room for it. -/
def addOperand (grammar : Grammar) (given : Given) (word : String) : Except Halt Given :=
  if given.operands.length < grammar.operands then
    .ok { given with operands := given.operands ++ [word] }
  else .error .misuse

/-- Reads the words behind two lone hyphens. -/
def readOperands (grammar : Grammar) (given : Given) (words : List String) : Except Halt Given :=
  words.foldlM (addOperand grammar) given

/-- Reads the words of a command. `waiting` is the option that the next word gives a value. -/
def readWords (grammar : Grammar) :
    Given → Option Flag → List String → Except Halt (Given × Rest)
  | given, none, [] => .ok (given, none)
  | _, some _, [] => .error .misuse
  | given, none, word :: words =>
    if grammar.subcommands.contains word then .ok (given, some (word, words))
    else
      match word.toList with
      | ['-', '-'] => (readOperands grammar given words).map (·, none)
      | '-' :: '-' :: name => do
        let (given, waiting) ← readName grammar given name
        readWords grammar given waiting words
      | '-' :: letter :: letters => do
        let (given, waiting) ← readLetters grammar given (letter :: letters)
        readWords grammar given waiting words
      | _ => do readWords grammar (← addOperand grammar given word) none words
  | given, some flag, word :: words =>
    match flag.effect with
    | .takesValue accepts negatives =>
      let isValue := match word.toList with
        | '-' :: '-' :: _ => false
        | '-' :: letter :: letters => negatives && isPlainNumber (letter :: letters)
        | _ => true
      if isValue then do
        readWords grammar (← given.setValue flag accepts word) none words
      else .error .misuse
    | _ => .error .misuse

/-- What is given to a command: its options, its operands, all of them, and its subcommand,
if there are any to choose from. -/
def readGiven (grammar : Grammar) (words : List String) : Except Halt (Given × Rest) := do
  let (given, rest) ← readWords grammar .empty none words
  if given.operands.length = grammar.operands &&
      (rest.isSome || grammar.subcommands.isEmpty) then .ok (given, rest)
  else .error .misuse

end Colourway.Command
