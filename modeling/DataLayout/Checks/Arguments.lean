-- The arguments of the local checks, `parse_arguments`. A long option may be cut short as long as
-- it is clear which one is meant, letters may stand together behind one dash, and `--fuzzing`
-- takes the values that follow it.
import DataLayout.Text.Numeral
import DataLayout.Text.Quoted

namespace DataLayout.Checks

open Text

/-! ## Options -/

/-- The rules of the library that reads arguments. Its releases differ in what they make of an
equals sign or an unknown letter behind a letter, and of two dashes as a value. -/
inductive Dialect
  /-- The rules of the earlier releases. -/
  | early
  /-- The rules of the later releases. -/
  | late
  deriving DecidableEq

inductive Flag
  | help
  | install
  | noLinter
  | noTests
  | coverage
  | quiet
  | fuzzing
  deriving DecidableEq

namespace Flag

/-- The spellings of the options, in the order in which they are listed. -/
def spellings : List (String × Flag) :=
  [("-h", .help), ("--help", .help), ("-i", .install), ("--install", .install),
    ("--no-linter", .noLinter), ("--no-tests", .noTests), ("-c", .coverage),
    ("--coverage", .coverage), ("-q", .quiet), ("--quiet", .quiet), ("-f", .fuzzing),
    ("--fuzzing", .fuzzing)]

def ofSpelling? (spelling : String) : Option Flag := spellings.lookup spelling

/-- The option of a letter behind a dash. -/
def ofLetter? (letter : Char) : Option Flag := ofSpelling? (String.ofList ['-', letter])

/-- The spellings that start with the given text. -/
def candidates (start : String) : List (String × Flag) :=
  spellings.filter fun (spelling, _) => start.toList.isPrefixOf spelling.toList

/-- All spellings of an option. -/
def label (flag : Flag) : String :=
  "/".intercalate ((spellings.filter fun (_, f) => f == flag).map (·.1))

end Flag

/-! ## Faults -/

inductive Fault
  /-- The start of several spellings. -/
  | ambiguous (argument : String) (spellings : List String)
  /-- A value for an option that takes none. -/
  | unwantedValue (flag : Flag) (value : String)
  /-- What no option takes. -/
  | unrecognized (arguments : List String)
  deriving DecidableEq

def Fault.message : Fault → String
  | .ambiguous argument spellings =>
    "ambiguous option: " ++ argument ++ " could match " ++ ", ".intercalate spellings
  | .unwantedValue flag value =>
    "argument " ++ flag.label ++ ": ignored explicit argument " ++ quoted value
  | .unrecognized arguments => "unrecognized arguments: " ++ " ".intercalate arguments

/-! ## Forms

The form of every argument is settled on its own, before any option acts. -/

/-- What an argument is. -/
inductive Form
  /-- A value for an option that takes values. -/
  | value
  /-- Two dashes. All that follows is a value. -/
  | separator
  /-- A letter behind a dash, with what stands right behind it. -/
  | short (flag : Flag) (rest : Option (List Char))
  /-- A letter behind a dash, with the text behind its equals sign. -/
  | shortEquals (flag : Flag) (text : List Char)
  /-- A word behind two dashes, with the text behind its equals sign. -/
  | long (flag : Flag) (text : Option (List Char))
  /-- What looks like an option and is none. -/
  | unknown
  deriving DecidableEq

/-- The text before an equals sign and the text behind it. -/
def splitEquals (chars : List Char) : List Char × Option (List Char) :=
  match chars.dropWhile (· ≠ '=') with
  | [] => (chars, none)
  | _ :: text => (chars.takeWhile (· ≠ '='), some text)

/-- Digits, at least one of them. -/
def isDigits (chars : List Char) : Bool :=
  !chars.isEmpty && chars.all fun c => (digitValue? c).isSome

/-- A dash, digits, and perhaps a point with digits behind it. A line end may follow. -/
def isNegativeNumber : List Char → Bool
  | '-' :: chars =>
    let number := if chars.getLast? = some '\n' then chars.dropLast else chars
    match number.dropWhile (· ≠ '.') with
    | [] => isDigits number
    | _ :: places =>
      let whole := number.takeWhile (· ≠ '.')
      (whole.isEmpty || isDigits whole) && isDigits places
  | _ => false

/-- What looks like an option and is none, unless it is a number or has a space in it. -/
def unknownForm (chars : List Char) : Form :=
  if isNegativeNumber chars || chars.contains ' ' then .value else .unknown

/-- An argument of two dashes and more. It may be the start of an option. -/
def longForm (argument : String) : Except Fault Form :=
  let (start, text) := splitEquals argument.toList
  match Flag.ofSpelling? (String.ofList start) with
  | some flag => .ok (.long flag text)
  | none =>
    match Flag.candidates (String.ofList start) with
    | [] => .ok (unknownForm argument.toList)
    | [(_, flag)] => .ok (.long flag text)
    | several => .error (.ambiguous argument (several.map (·.1)))

/-- An argument of one dash and more. -/
def shortForm (letter : Char) (rest : List Char) : Form :=
  match Flag.ofLetter? letter, rest with
  | some flag, [] => .short flag none
  | some flag, '=' :: text => .shortEquals flag text
  | some flag, text => .short flag (some text)
  | none, text => unknownForm ('-' :: letter :: text)

def form (argument : String) : Except Fault Form :=
  match argument.toList with
  | ['-', '-'] => .ok .separator
  | '-' :: '-' :: _ => longForm argument
  | '-' :: letter :: rest => .ok (shortForm letter rest)
  | _ => .ok .value

/-- All arguments with their forms. The first fault is the answer. -/
def forms : List String → Except Fault (List (String × Form))
  | [] => .ok []
  | argument :: rest => do
    let f ← form argument
    if f = .separator then return (argument, f) :: rest.map fun a => (a, .value)
    else return (argument, f) :: (← forms rest)

/-! ## Options of one argument -/

/-- The options that an argument names, the value of the last one, and the text behind them that
no option takes. -/
structure Given where
  flags : List Flag
  value : Option String
  left : Option String
  deriving DecidableEq

/-- An option without a value. -/
def alone (flag : Flag) : Given := ⟨[flag], none, none⟩

/-- Only `--fuzzing` takes a value. -/
def withValue (flag : Flag) (value : List Char) : Except Fault Given :=
  if flag = .fuzzing then .ok ⟨[flag], some (String.ofList value), none⟩
  else .error (.unwantedValue flag (String.ofList value))

/-- The text behind an option that takes no value, where no known letter follows. Early releases
take it for a value. Late ones do so for a dash, and leave any other text over. -/
def unknownLetters (dialect : Dialect) (flag : Flag) (text : List Char) : Except Fault Given :=
  if dialect = .early ∨ text.head? = some '-' then withValue flag text
  else .ok ⟨[flag], none, some (String.ofList ('-' :: text))⟩

/-- The text behind the letter of an option: its value, or the letters of more options. Late
releases know an equals sign behind each of them. -/
def bundle (dialect : Dialect) (flag : Flag) : List Char → Except Fault Given
  | [] => withValue flag []
  | letter :: rest =>
    if flag = .fuzzing then withValue flag (letter :: rest)
    else
      match Flag.ofLetter? letter with
      | none => unknownLetters dialect flag (letter :: rest)
      | some next => do
        let given ←
          if rest.isEmpty then .ok (alone next)
          else if dialect = .late ∧ rest.head? = some '=' then withValue next rest.tail
          else bundle dialect next rest
        return { given with flags := flag :: given.flags }

/-! ## Choices -/

/-- What the arguments ask for. -/
structure Choices where
  install : Bool
  noLinter : Bool
  noTests : Bool
  coverage : Bool
  quiet : Bool
  fuzzing : Option (List String)
  deriving DecidableEq

namespace Choices

def nothing : Choices := ⟨false, false, false, false, false, none⟩

def set (c : Choices) : Flag → Choices
  | .help => c
  | .install => { c with install := true }
  | .noLinter => { c with noLinter := true }
  | .noTests => { c with noTests := true }
  | .coverage => { c with coverage := true }
  | .quiet => { c with quiet := true }
  | .fuzzing => { c with fuzzing := some [] }

/-- One more value for `--fuzzing`. -/
def addValue (c : Choices) (value : String) : Choices :=
  { c with fuzzing := some (c.fuzzing.getD [] ++ [value]) }

/-- Sets the options of an argument. Early releases drop two dashes where a value is expected. -/
def give (dialect : Dialect) (c : Choices) (given : Given) : Choices :=
  let c := given.flags.foldl set c
  match given.value with
  | some value => if dialect = .early ∧ value = "--" then c else c.addValue value
  | none => c

end Choices

/-! ## Reading -/

inductive Reading
  | accepted (choices : Choices)
  | help
  | refused (fault : Fault)
  deriving DecidableEq

/-- The options that an argument of a form names, if it names any. -/
def given? (dialect : Dialect) : Form → Option (Except Fault Given)
  | .value => none
  | .separator => none
  | .unknown => none
  | .short flag none => some (.ok (alone flag))
  | .short flag (some rest) => some (bundle dialect flag rest)
  | .shortEquals flag text =>
    match dialect with
    | .early => some (bundle dialect flag text)
    | .late => some (withValue flag text)
  | .long flag none => some (.ok (alone flag))
  | .long flag (some text) => some (withValue flag text)

/-- Whether the values of `--fuzzing` follow. -/
def takesValues (given : Given) : Bool := given.flags.contains .fuzzing && given.value.isNone

/-- Takes the arguments in their order. Values go to an option that takes them, and what no
option takes is kept for the end. -/
def take (dialect : Dialect) (c : Choices) (collecting : Bool) (left : List String) :
    List (String × Form) → Reading
  | [] => if left.isEmpty then .accepted c else .refused (.unrecognized left)
  | (argument, f) :: rest =>
    match given? dialect f with
    | none =>
      if collecting && f = .value then take dialect (c.addValue argument) true left rest
      else take dialect c false (left ++ [argument]) rest
    | some (.error fault) => .refused fault
    | some (.ok given) =>
      if given.flags.contains .help then .help
      else
        take dialect (c.give dialect given) (takesValues given) (left ++ given.left.toList) rest

/-- Reads the arguments of the local checks. -/
def read (dialect : Dialect) (arguments : List String) : Reading :=
  match forms arguments with
  | .error fault => .refused fault
  | .ok found => take dialect .nothing false [] found

end DataLayout.Checks
