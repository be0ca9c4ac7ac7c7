-- The workbench: a registry, the engine in use on it, and the engine that the registry keeps for
-- its own descriptions. Registering, looking up and measuring are its steps. The steps are the
-- public functions of `TypeRegistry`, `LayoutEngine` and `LayoutStrategy`.
import DataLayout.Engine

namespace DataLayout

open Text

structure Workbench where
  registry : Registry
  engine : Engine
  /-- The engine behind `describe`. It is made at the first description. -/
  describer : Option Engine
  deriving DecidableEq

namespace Workbench

def empty : Workbench := ⟨.empty, .empty, none⟩

/-- A step of the registry. -/
def onRegistry {α : Type} (step : Logged Registry α) : Logged Workbench α :=
  Logged.within (·.registry) (fun r w => { w with registry := r }) step

/-- A question to the engine in use, about the registry as it is. -/
def ask {α : Type} (question : Registry → Logged Engine α) : Logged Workbench α := do
  let w ← Logged.state
  Logged.within (·.engine) (fun e w => { w with engine := e }) (question w.registry)

section

variable (limit : DigitLimit)

def register (name : String) (offer : Offer) : Logged Workbench Unit :=
  onRegistry (Registry.register limit name offer)

/-- Takes a new engine into use. -/
def renewEngine : Logged Workbench Unit := Logged.change fun w => { w with engine := .empty }

/-- The report on a name as the registry gives it, from its own engine. -/
def describe (name : String) : Logged Workbench String := do
  let w ← Logged.state
  Logged.within (·.describer.getD .empty) (fun e w => { w with describer := some e })
    (Engine.reportText limit w.registry name)

/-! ## Offers as they are

A number of an atomic type that is no integer was never checked. It is given back as it is,
and it has a loss if it can be taken away from itself. -/

/-- The definition that is to be measured. -/
def measurable (offer : Offer) : Except Failure Definition :=
  match offer.definition? with
  | some d => .ok d
  | none => if offer.writable limit then .error (.notADefinition offer.text) else .error .numeralTooLong

section

variable {m : Type → Type} [Monad m] [MonadLiftT (Except Failure) m]

def sizeWith (size : Definition → m Int) : Offer → m Scalar
  | .atomic size _ => return size
  | offer => do return .integer (← size (← measurable limit offer))

def alignmentWith (alignment : Definition → m Int) : Offer → m Scalar
  | .atomic _ alignment => return alignment
  | offer => do return .integer (← alignment (← measurable limit offer))

def lossWith (loss : Definition → m Int) : Offer → m Scalar
  | .atomic size _ => orFail .notANumber size.minusItself?
  | offer => do return .integer (← loss (← measurable limit offer))

end

def sizeOf (p : Packing) (offer : Offer) : Logged Workbench Scalar :=
  ask fun r => sizeWith limit (Engine.size limit r p) offer

def alignmentOf (p : Packing) (offer : Offer) : Logged Workbench Scalar :=
  ask fun r => alignmentWith limit (Engine.alignment limit r p) offer

def lossOf (p : Packing) (offer : Offer) : Logged Workbench Scalar :=
  ask fun r => lossWith limit (Engine.loss limit r p) offer

/-- Size, alignment and loss, in this order. -/
def layoutOf (p : Packing) (offer : Offer) : Logged Workbench (Scalar × Scalar × Scalar) := do
  let size ← sizeOf limit p offer
  let alignment ← alignmentOf limit p offer
  let loss ← lossOf limit p offer
  return (size, alignment, loss)

/-! ## A strategy by itself

With a packing it is the strategy of the engine in use. Without one it is a new strategy
that knows no rule for structs. -/

def onStrategy {α : Type} (packing : Option Packing) (step : Registry → Strategy.Work α) :
    Logged Workbench α :=
  match packing with
  | some p => ask fun r => Engine.strategy p (step r)
  | none => do
    let w ← Logged.state
    Logged.within (fun _ => .empty) (fun _ w => w) (step w.registry)

def strategySize (packing : Option Packing) (offer : Offer) : Logged Workbench Scalar :=
  onStrategy packing fun r => sizeWith limit (Strategy.size limit packing r) offer

def strategyAlignment (packing : Option Packing) (offer : Offer) : Logged Workbench Scalar :=
  onStrategy packing fun r => alignmentWith limit (Strategy.alignment limit packing r) offer

def member (packing : Option Packing) (name : String) : Logged Workbench Extent :=
  onStrategy packing fun r => Strategy.extent limit packing r name

/-- The best ordering of a struct, registered or not. -/
def orderingOf (names : List String) : Logged Workbench (List String × Int) :=
  onStrategy (some .optimized) fun r => Strategy.ordering limit r names

end

/-- The label of a strategy. Only a packing has one. -/
def strategyLabel : Option Packing → Option String
  | some p => some (p.heading ++ "Layout(" ++ p.word ++ ")")
  | none => none

end Workbench

end DataLayout
