-- The log. A step may fail, and what it has changed and written until then stays. The records are
-- those of `register`, `optimal_layout`, `execute` and `run_line`.
import DataLayout.Action
import DataLayout.Definition
import DataLayout.Failure

namespace DataLayout

open Text

/-! ## Records -/

inductive Level
  | debug
  | info
  | warning
  | error
  deriving DecidableEq, Inhabited

namespace Level

def rank : Level → Nat
  | .debug => 10
  | .info => 20
  | .warning => 30
  | .error => 40

def word : Level → String
  | .debug => "DEBUG"
  | .info => "INFO"
  | .warning => "WARNING"
  | .error => "ERROR"

end Level

inductive Record
  /-- A definition was added under a name. -/
  | registered (name : String) (definition : Definition)
  /-- The orderings of a struct were searched, and this one was chosen. -/
  | ordered (members ordering : List String) (size : Int)
  /-- An action is about to be executed. -/
  | executing (action : Action)
  /-- A value that is no action is about to be refused. -/
  | attempting (value : Datum)
  /-- A line was refused with this message. -/
  | rejected (line message : String)

namespace Record

def level : Record → Level
  | .rejected _ _ => .info
  | _ => .debug

/-- A record is written as text, so its numbers have to keep the limit. -/
def writable (limit : DigitLimit) : Record → Bool
  | .registered _ d => d.writable limit
  | .ordered _ _ size => Text.writable limit size
  | .executing action => action.writable limit
  | .attempting value => value.writable limit
  | .rejected _ _ => true

def text : Record → String
  | .registered name d => "Registered type " ++ name ++ " = " ++ d.text
  | .ordered members ordering size =>
    "Optimal ordering of " ++ (Definition.struct members).text ++ " is " ++ quotedTuple ordering ++
      " with size " ++ String.ofList (numeral size)
  | .executing action => "Executing " ++ action.text
  | .attempting value => "Executing " ++ value.plain
  | .rejected line message => "Rejected " ++ quoted line ++ ": " ++ message

/-- A record as one line of the log. -/
def line (r : Record) : String := "[" ++ r.level.word ++ "] " ++ r.text

end Record

/-! ## Steps that write records -/

/-- A state with the records written so far. -/
structure Trail (σ : Type) where
  state : σ
  records : List Record

/-- A step that works on a state, may fail, and writes records. -/
abbrev Logged (σ : Type) := ExceptT Failure (StateM (Trail σ))

namespace Logged

variable {σ τ α : Type}

def state : Logged σ σ := do return (← get).state

def change (f : σ → σ) : Logged σ Unit := modify fun t => { t with state := f t.state }

/-- Writes a record. A number that is too long for text makes it fail. -/
def note (limit : DigitLimit) (r : Record) : Logged σ Unit :=
  if r.writable limit then modify fun t => { t with records := t.records ++ [r] }
  else throw .numeralTooLong

/-- A step on a part of the state. -/
def within (part : σ → τ) (put : τ → σ → σ) (step : Logged τ α) : Logged σ α := fun t =>
  let (answer, inner) := step ⟨part t.state, t.records⟩
  (answer, ⟨put inner.state t.state, inner.records⟩)

/-- Runs a step on a trail. -/
def runOn (t : Trail σ) (step : Logged σ α) : Except Failure α × Trail σ := (step.run t : Id _)

/-- A step from a state and an empty log. -/
def runFrom (start : σ) (step : Logged σ α) : Except Failure α × Trail σ := runOn ⟨start, []⟩ step

end Logged

/-- A value that must be there. -/
def orFail {α : Type} (failure : Failure) : Option α → Except Failure α
  | some a => .ok a
  | none => .error failure

/-! ## Running a step -/

namespace Logged

variable {σ τ α β : Type} (t : Trail σ)

@[simp] theorem runOn_pure (a : α) : runOn t (pure a) = (.ok a, t) := rfl

@[simp] theorem runOn_throw (failure : Failure) :
    runOn t (throw failure : Logged σ α) = (.error failure, t) := rfl

theorem runOn_bind (step : Logged σ α) (next : α → Logged σ β) :
    runOn t (step >>= next) =
      match runOn t step with
      | (.ok a, after) => runOn after (next a)
      | (.error failure, after) => (.error failure, after) := by
  have hbind : runOn t (step >>= next) = match step t with
      | (answer, after) => runOn after (ExceptT.bindCont next answer) := rfl
  have hstep : runOn t step = step t := rfl
  rw [hbind, hstep]
  rcases step t with ⟨answer, after⟩
  cases answer <;> rfl

@[simp] theorem runOn_state : runOn t (state : Logged σ σ) = (.ok t.state, t) := rfl

@[simp] theorem runOn_change (f : σ → σ) :
    runOn t (change f) = (.ok (), { t with state := f t.state }) := rfl

@[simp] theorem runOn_lift (answer : Except Failure α) :
    runOn t (answer : Logged σ α) = (answer, t) := rfl

theorem runOn_note (limit : DigitLimit) (r : Record) :
    runOn t (note limit r : Logged σ Unit) =
      if r.writable limit then (.ok (), { t with records := t.records ++ [r] })
      else (.error .numeralTooLong, t) := by
  unfold note
  by_cases h : r.writable limit = true
  · rw [if_pos h, if_pos h]
    rfl
  · rw [if_neg h, if_neg h]
    rfl

theorem runOn_tryCatch (step : Logged σ α) (handler : Failure → Logged σ α) :
    runOn t (tryCatch step handler) =
      match runOn t step with
      | (.ok a, after) => (.ok a, after)
      | (.error failure, after) => runOn after (handler failure) := by
  have hcatch : runOn t (tryCatch step handler) =
      (ExceptT.tryCatch step handler : Logged σ α) t := rfl
  have hstep : runOn t step = step t := rfl
  rw [hcatch, hstep]
  unfold ExceptT.tryCatch ExceptT.mk
  rcases h : step t with ⟨answer, after⟩
  simp only [bind, StateT.bind, h]
  cases answer <;> rfl

theorem runOn_within (part : σ → τ) (put : τ → σ → σ) (step : Logged τ α) :
    runOn t (within part put step) =
      ((runOn ⟨part t.state, t.records⟩ step).1,
        ⟨put (runOn ⟨part t.state, t.records⟩ step).2.state t.state,
          (runOn ⟨part t.state, t.records⟩ step).2.records⟩) := rfl

end Logged

end DataLayout
