-- Everything that can go wrong, as causes, and the wording of each message. The faults are
-- `TypeSystemError` and `CommandError`.
import DataLayout.Text.Numeral

namespace DataLayout

open Text

/-! ## Faults of types -/

/-- Why a definition or a reference is not valid. `unlisted` stands for a code that has no
wording of its own. -/
inductive TypeFault.Cause
  | redefinition
  | zeroSize
  | zeroAlignment
  | emptyCompound
  | unknownName
  | unlisted (code : Int)
  deriving DecidableEq

/-- A fault of a type. The name is there when the fault is about one. -/
structure TypeFault where
  cause : TypeFault.Cause
  name : Option String
  deriving DecidableEq

namespace TypeFault

def Cause.ofCode : Int → Cause
  | 1 => .redefinition
  | 2 => .zeroSize
  | 3 => .zeroAlignment
  | 4 => .emptyCompound
  | 5 => .unknownName
  | code => .unlisted code

def Cause.code : Cause → Int
  | .redefinition => 1
  | .zeroSize => 2
  | .zeroAlignment => 3
  | .emptyCompound => 4
  | .unknownName => 5
  | .unlisted code => code

/-- The symbol and the wording of a cause. -/
def Cause.wording? : Cause → Option (String × String)
  | .redefinition => some ("TYPE_REDEFINITION", "An existing type cannot be redefined")
  | .zeroSize => some ("NO_ZERO_SIZED_TYPE", "Types of size 0 are not allowed")
  | .zeroAlignment => some ("NO_ZERO_ALIGN", "Aligning to 0 is not allowed")
  | .emptyCompound => some ("EMPTY_COMPOUND_TYPE", "Empty compound types are not allowed")
  | .unknownName => some ("TYPE_DOES_NOT_EXIST", "The symbol does not exist")
  | .unlisted _ => none

end TypeFault

/-- A symbol in brackets and its wording, and the name or argument it is about. -/
def faultText (symbol wording : String) : Option String → String
  | some about => "[" ++ symbol ++ "] " ++ wording ++ ": '" ++ about ++ "'"
  | none => "[" ++ symbol ++ "] " ++ wording

namespace TypeFault

def message (e : TypeFault) : String :=
  match e.cause.wording? with
  | some (symbol, wording) => faultText symbol wording e.name
  | none =>
    "[TypeSystemError] Got an unexpected error code '" ++ String.ofList (numeral e.cause.code) ++ "'."

/-- The name that a reference asks for is not registered. -/
def unknown (name : String) : TypeFault := ⟨.unknownName, some name⟩

end TypeFault

/-! ## Faults of commands -/

/-- Why a line is not a command. `unlisted` stands for a code that has no wording. -/
inductive CommandFault.Cause
  | notEnoughArguments
  | tooManyArguments
  | invalidAction
  | invalidArgument
  | unlisted (code : Int)
  deriving DecidableEq

/-- A fault of a line. The argument is there when the fault is about one. -/
structure CommandFault where
  cause : CommandFault.Cause
  argument : Option String
  deriving DecidableEq

namespace CommandFault

def Cause.ofCode : Int → Cause
  | 1 => .notEnoughArguments
  | 2 => .tooManyArguments
  | 3 => .invalidAction
  | 4 => .invalidArgument
  | code => .unlisted code

def Cause.code : Cause → Int
  | .notEnoughArguments => 1
  | .tooManyArguments => 2
  | .invalidAction => 3
  | .invalidArgument => 4
  | .unlisted code => code

def Cause.wording? : Cause → Option (String × String)
  | .notEnoughArguments => some ("NOT_ENOUGH_ARGS", "Not enough arguments")
  | .tooManyArguments => some ("TOO_MANY_ARGS", "Too many arguments")
  | .invalidAction => some ("INVALID_ACTION", "Not a valid action")
  | .invalidArgument => some ("INVALID_ARGUMENT", "Not a valid argument")
  | .unlisted _ => none

/-- The message of a fault. A code without a wording has none. -/
def message? (e : CommandFault) : Option String :=
  e.cause.wording?.map fun (symbol, wording) => faultText symbol wording e.argument

end CommandFault

/-! ## All failures -/

inductive Failure
  /-- A definition or a reference is not valid. -/
  | type (fault : TypeFault)
  /-- A line is not a command. -/
  | command (fault : CommandFault)
  /-- A fault of a command has no wording. -/
  | noWording
  /-- The shown value is no definition. -/
  | notADefinition (shown : String)
  /-- The numbers of the shown atomic type are not both integers. -/
  | notIntegers (shown : String)
  /-- Only structs have an ordering, and the shown definition of the name is none. -/
  | notAStruct (name shown : String)
  /-- The shown value is no action. -/
  | notAnAction (shown : String)
  /-- A member cannot be aligned to 0. -/
  | alignedToZero
  /-- Two zeros have no common multiple. -/
  | noCommonMultiple
  /-- No number is the largest of none. -/
  | noLargest
  /-- An integer has more digits than text may hold. -/
  | numeralTooLong
  /-- Without a packing there is no rule for structs. -/
  | noPacking
  /-- No members have no ordering. -/
  | noOrdering
  /-- A value is not a number and cannot be taken away from another. -/
  | notANumber
  /-- A value that is not settled is not counted among others, and it is no name. -/
  | notSettled
  /-- Only texts can be joined, and a value that is none is among them. -/
  | notText
  deriving DecidableEq

/-- The wording of the failures that are neither faults of types nor of commands. The
others are failures of arithmetic and have none. -/
def Failure.wording? : Failure → Option String
  | .notADefinition shown => some ("Expected an Atomic, Struct or Union, got " ++ shown ++ ".")
  | .notIntegers shown =>
    some ("Atomic size and alignment must be integers, got " ++ shown ++ ".")
  | .notAStruct name shown =>
    some ("Only structs have a member ordering, " ++ name ++ " is " ++ shown ++ ".")
  | .notAnAction shown => some ("Unknown action " ++ shown)
  | .noCommonMultiple => some "The least common multiple of 0 and 0 is undefined."
  | _ => none

end DataLayout
