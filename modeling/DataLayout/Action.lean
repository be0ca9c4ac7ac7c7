-- The actions of a session: to end it, to describe a type, and to add one. They are `Exit`,
-- `Describe`, `AddAtomic`, `AddStruct` and `AddUnion`.
import DataLayout.Text.Numeral
import DataLayout.Text.Quoted

namespace DataLayout

open Text

inductive Action
  | exit
  | describe (name : String)
  | addAtomic (name : String) (size alignment : Int)
  | addStruct (name : String) (members : List String)
  | addUnion (name : String) (variants : List String)
  deriving DecidableEq

namespace Action

def writable (limit : DigitLimit) : Action → Bool
  | .addAtomic _ size alignment => Text.writable limit size && Text.writable limit alignment
  | _ => true

/-- An action as it stands in the log, with its texts quoted. -/
def text : Action → String
  | .exit => "Exit()"
  | .describe name => "Describe(name=" ++ quoted name ++ ")"
  | .addAtomic name size alignment =>
    "AddAtomic(name=" ++ quoted name ++ ", representation=" ++ String.ofList (numeral size) ++
      ", alignment=" ++ String.ofList (numeral alignment) ++ ")"
  | .addStruct name members =>
    "AddStruct(name=" ++ quoted name ++ ", members=" ++ quotedTuple members ++ ")"
  | .addUnion name variants =>
    "AddUnion(name=" ++ quoted name ++ ", variants=" ++ quotedTuple variants ++ ")"

end Action

end DataLayout
