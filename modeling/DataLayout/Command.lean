-- The command language: one action a line, as words with blanks between them. The first word is
-- the verb, in any mix of capitals and small letters. The functions are `parse`, `_parse_count`
-- and the parsers of the five verbs.
import DataLayout.Action
import DataLayout.Failure
import DataLayout.Text.Blank
import DataLayout.Text.LowerCase

namespace DataLayout

open Text

namespace Command

/-! ## Numbers -/

/-- Reads a size or an alignment: a number that is not negative. -/
def count (token : String) : Except CommandFault Int :=
  match integer? .standard token.toList with
  | some n => if n < 0 then .error ⟨.invalidArgument, some token⟩ else .ok n
  | none => .error ⟨.invalidArgument, some token⟩

/-! ## Verbs -/

def tooFew : CommandFault := ⟨.notEnoughArguments, none⟩

def tooMany : CommandFault := ⟨.tooManyArguments, none⟩

/-- The arguments of `describe`: a name. -/
def describe : List String → Except CommandFault Action
  | [] => .error tooFew
  | [name] => .ok (.describe name)
  | _ => .error tooMany

/-- The arguments of `atomic`: a name and two numbers. They are counted before a number
is read. -/
def addAtomic : List String → Except CommandFault Action
  | [name, size, alignment] => do return .addAtomic name (← count size) (← count alignment)
  | arguments => if arguments.length < 3 then .error tooFew else .error tooMany

/-- The arguments of `struct` and `union`: a name and other names. That there may be no
other names is left to the registry to refuse. -/
def addCompound (action : String → List String → Action) : List String → Except CommandFault Action
  | [] => .error tooFew
  | name :: names => .ok (action name names)

/-- The reader of the arguments of a verb. -/
def verb? : String → Option (List String → Except CommandFault Action)
  | "exit" => some fun _ => .ok .exit
  | "describe" => some describe
  | "atomic" => some addAtomic
  | "struct" => some (addCompound .addStruct)
  | "union" => some (addCompound .addUnion)
  | _ => none

end Command

/-! ## Lines -/

/-- The words of a line. -/
def lineTokens (line : String) : List String := (words line.toList).map String.ofList

/-- The action that a line asks for. -/
def Action.parse (line : String) : Except CommandFault Action :=
  match lineTokens line with
  | [] => .error Command.tooFew
  | first :: arguments =>
    let verb := String.ofList (lower first.toList)
    match Command.verb? verb with
    | some read => read arguments
    | none => .error ⟨.invalidAction, some verb⟩

end DataLayout
