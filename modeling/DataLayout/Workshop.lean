-- The workshop: a registry, and every engine that was made on it. Registrations, new engines and
-- questions come in any order, and a question goes to one of the engines. The steps are
-- `register`, a new `LayoutEngine`, its questions, and `describe`.
import DataLayout.Workbench

namespace DataLayout

open Text

/-! ## Questions -/

/-- A question to an engine. Offers and members need not be registered. -/
inductive Question
  | size (p : Packing) (offer : Offer)
  | alignment (p : Packing) (offer : Offer)
  | loss (p : Packing) (offer : Offer)
  | layout (p : Packing) (offer : Offer)
  | member (p : Packing) (name : String)
  | search (members : List String)
  | ordering (name : String)
  | report (name : String)

namespace Question

/-- What a question is answered with. -/
abbrev Answer : Question → Type
  | .size _ _ => Scalar
  | .alignment _ _ => Scalar
  | .loss _ _ => Scalar
  | .layout _ _ => Scalar × Scalar × Scalar
  | .member _ _ => Extent
  | .search _ => List String × Int
  | .ordering _ => List String × Int
  | .report _ => Report

section

variable (limit : DigitLimit)

/-- The question as a step of the workbench, on the engine in use. -/
def ask : (q : Question) → Logged Workbench q.Answer
  | .size p offer => Workbench.sizeOf limit p offer
  | .alignment p offer => Workbench.alignmentOf limit p offer
  | .loss p offer => Workbench.lossOf limit p offer
  | .layout p offer => Workbench.layoutOf limit p offer
  | .member p name => Workbench.member limit (some p) name
  | .search members => Workbench.orderingOf limit members
  | .ordering name => Workbench.ask fun r => Engine.ordering limit r name
  | .report name => Workbench.ask fun r => Engine.report limit r name

/-- The answer by recursion over the registry, with nothing remembered. -/
def plain (r : Registry) : (q : Question) → Except Failure q.Answer
  | .size p offer => Workbench.sizeWith limit (r.sizeOf limit p) offer
  | .alignment p offer => Workbench.alignmentWith limit (r.alignmentOf limit p) offer
  | .loss p offer => Workbench.lossWith limit (r.lossOf limit p) offer
  | .layout p offer => do
    let size ← Workbench.sizeWith limit (r.sizeOf limit p) offer
    let alignment ← Workbench.alignmentWith limit (r.alignmentOf limit p) offer
    let loss ← Workbench.lossWith limit (r.lossOf limit p) offer
    return (size, alignment, loss)
  | .member p name => r.extent limit p name
  | .search members => r.orderingOf limit members
  | .ordering name => r.ordering limit name
  | .report name => r.report limit name

end

end Question

/-! ## Steps -/

structure Workshop where
  registry : Registry
  /-- The engines in the order in which they were made. -/
  engines : List Engine
  /-- The engine that the registry keeps for its own descriptions. -/
  describer : Option Engine
  deriving DecidableEq

namespace Workshop

def empty : Workshop := ⟨.empty, [], none⟩

/-- A workshop where nobody has asked anything. -/
def new (r : Registry) : Workshop := ⟨r, [], none⟩

/-- The workbench with one engine in use. -/
def bench (w : Workshop) (e : Engine) : Workbench := ⟨w.registry, e, w.describer⟩

inductive Step
  | register (call : Call)
  | newEngine
  | ask (engine : Nat) (question : Question)
  | describe (name : String)

section

variable (limit : DigitLimit) (w : Workshop)

/-- What an engine answers. -/
def answer (e : Engine) (q : Question) : Except Failure q.Answer :=
  (Logged.runFrom (w.bench e) (q.ask limit)).1

/-- The description of a name by the registry. -/
def description (name : String) : Except Failure String :=
  (Logged.runFrom (w.bench .empty) (Workbench.describe limit name)).1

/-- The workshop after a step. An engine that was not made is not asked. -/
def after : Step → Workshop
  | .register call => { w with registry := (w.registry.call limit call).2 }
  | .newEngine => { w with engines := w.engines ++ [.empty] }
  | .ask i q =>
    match w.engines[i]? with
    | some e =>
      let b := (Logged.runFrom (w.bench e) (q.ask limit)).2.state
      ⟨b.registry, w.engines.set i b.engine, b.describer⟩
    | none => w
  | .describe name =>
    let b := (Logged.runFrom (w.bench .empty) (Workbench.describe limit name)).2.state
    ⟨b.registry, w.engines, b.describer⟩

/-- What one of the engines writes into the log during a step. -/
def recorded (i : Nat) : Step → List Record
  | .ask j q =>
    if j = i then
      match w.engines[j]? with
      | some e => (Logged.runFrom (w.bench e) (q.ask limit)).2.records
      | none => []
    else []
  | _ => []

end

/-- The workshop after some steps, from nothing. -/
def run (limit : DigitLimit) (steps : List Step) : Workshop := steps.foldl (after limit) empty

/-- All that one of the engines writes into the log during some steps. -/
def logFrom (limit : DigitLimit) (i : Nat) (w : Workshop) : List Step → List Record
  | [] => []
  | s :: rest => w.recorded limit i s ++ logFrom limit i (w.after limit s) rest

/-- The log of one of the engines, from nothing. -/
def log (limit : DigitLimit) (i : Nat) (steps : List Step) : List Record :=
  logFrom limit i empty steps

end Workshop

end DataLayout
