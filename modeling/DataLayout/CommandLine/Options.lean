-- Options among the words of a command line. A long option may bring its value with an equals
-- sign, letters may stand together behind one dash, and two dashes end the options. So `cli` reads
-- its arguments.

namespace DataLayout.CommandLine

/-! ## Grammars -/

/-- The options that a command knows. -/
structure Grammar where
  /-- Long options without a value. -/
  switches : List String
  /-- Letters that are options without a value. -/
  letters : List Char
  /-- Long options with a value. -/
  valued : List String
  /-- Whether options may stand behind other words. -/
  interspersed : Bool
  deriving DecidableEq

/-- The options that were given, in their order, and the other words. -/
structure Given where
  switches : List String
  values : List (String × String)
  words : List String
  deriving DecidableEq

namespace Given

def none : Given := ⟨[], [], []⟩

def addSwitches (names : List String) (g : Given) : Given := { g with switches := names ++ g.switches }

def addValue (name value : String) (g : Given) : Given := { g with values := (name, value) :: g.values }

def addWord (word : String) (g : Given) : Given := { g with words := word :: g.words }

def has (g : Given) (name : String) : Bool := g.switches.contains name

/-- The last value of an option. -/
def value? (g : Given) (name : String) : Option String := g.values.reverse.lookup name

end Given

/-! ## Reading -/

/-- A dash and something behind it. A dash alone is a word. -/
def looksLikeOption (word : String) : Bool :=
  match word.toList with
  | '-' :: _ :: _ => true
  | _ => false

/-- The name of an option and the value behind its equals sign. -/
def splitValue (word : String) : String × Option String :=
  let chars := word.toList
  let name := chars.takeWhile (· ≠ '=')
  match chars.drop name.length with
  | [] => (word, none)
  | _ :: value => (String.ofList name, some (String.ofList value))

/-- The options of the letters behind a dash. All of them have to be known. -/
def letterOptions (g : Grammar) (letters : List Char) : Option (List String) :=
  if letters.all (g.letters.contains ·) then some (letters.map fun c => String.ofList ['-', c]) else none

/-- What one word is. -/
inductive Word
  /-- The end of the options. -/
  | stop
  /-- A word that is no option. -/
  | plain
  | switches (names : List String)
  | value (name value : String)
  /-- An option whose value is the next word. -/
  | awaits (name : String)
  | unknown
  deriving DecidableEq

def classify (g : Grammar) (word : String) : Word :=
  if word = "--" then .stop
  else if !looksLikeOption word then .plain
  else
    match splitValue word with
    | (name, some value) =>
      if g.valued.contains name then .value name value
      else .unknown
    | (name, none) =>
      if g.switches.contains name then .switches [name]
      else if g.valued.contains name then .awaits name
      else if name.startsWith "--" then .unknown
      else
        match letterOptions g (name.toList.drop 1) with
        | some names => .switches names
        | none => .unknown

/-- Reads the words of a command line. An unknown option, a value that is missing and a
value that is not wanted are errors. -/
def read (g : Grammar) : List String → Option Given
  | [] => some .none
  | word :: rest =>
    match classify g word with
    | .stop => some { Given.none with words := rest }
    | .plain =>
      if g.interspersed then (read g rest).map (·.addWord word)
      else some { Given.none with words := word :: rest }
    | .switches names => (read g rest).map (·.addSwitches names)
    | .value name value => (read g rest).map (·.addValue name value)
    | .awaits name =>
      match rest with
      | value :: later => (read g later).map (·.addValue name value)
      | [] => none
    | .unknown => none

end DataLayout.CommandLine
