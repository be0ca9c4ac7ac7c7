-- The law of dialogues. A dialogue runs the lines of its input as a lenient script does, each one
-- after a prompt. Where only line feeds end the lines of the input, a lone carriage return belongs
-- to its line, and it would end a line of a script.
import DataLayout.Proofs.Script

namespace DataLayout

open Console Program Text

/-! ## Ends of lines -/

namespace Text

/-- A carriage return that no line feed follows. -/
def HoldsLoneReturn (text : List Char) : Prop :=
  ∃ i < text.length, text[i]? = some '\r' ∧ text[i + 1]? ≠ some '\n'

instance (text : List Char) : Decidable (HoldsLoneReturn text) :=
  inferInstanceAs (Decidable (∃ i < text.length, _))

theorem HoldsLoneReturn.cons {text : List Char} (h : HoldsLoneReturn text) (c : Char) :
    HoldsLoneReturn (c :: text) :=
  let ⟨i, hi, hreturn, hnext⟩ := h
  ⟨i + 1, Nat.succ_lt_succ hi, hreturn, hnext⟩

/-- The same lines, some of them with a carriage return at their end. The last one has none. -/
inductive AreReturned : List (List Char) → List (List Char) → Prop
  | last (piece : List Char) : AreReturned [piece] [piece]
  | kept (piece : List Char) {pieces others : List (List Char)} (h : AreReturned pieces others) :
      AreReturned (piece :: pieces) (piece :: others)
  | returned (piece : List Char) {pieces others : List (List Char)}
      (h : AreReturned pieces others) :
      AreReturned (piece :: pieces) ((piece ++ ['\r']) :: others)

theorem AreReturned.ne_nil {pieces others : List (List Char)} (h : AreReturned pieces others) :
    pieces ≠ [] ∧ others ≠ [] := by
  cases h <;> exact ⟨List.cons_ne_nil _ _, List.cons_ne_nil _ _⟩

end Text

/-! ## Trimmed lines -/

namespace Program

variable {limit : DigitLimit} {settings : Settings}

end Program

/-! ## Dialogues -/

namespace Transcript

/-- Turns one after the other, and an ending. A turn without an answer breaks them off. -/
def ofTurns (ending : Transcript) : List (Turn Bool) → Transcript
  | [] => ending
  | t :: later =>
    match t.answer with
    | .error failure => .broken t.printed t.records failure
    | .ok _ => (ofTurns ending later).after t.printed t.records

end Transcript

namespace Dialogue

variable {limit : DigitLimit} {settings : Settings} {r : Registry} {p : Program}

/-- A turn behind a prompt. -/
def prompted (t : Turn Bool) : Turn Bool := { t with printed := prompt ++ t.printed }

/-- How a dialogue of some lines ends: without more output behind the exit, and with a prompt
and a line end if there is none. -/
def ending (lines : List String) : Transcript :=
  .finished (if lines.any endsWith then "" else prompt ++ "\n") [] 0

/-- A dialogue runs its lines one after the other, up to the first one that ends it. -/
theorem runLines_eq (h : WellFormed r.entries) (hp : p.At limit r true) (lines : List String) :
    runLines limit settings p lines =
      .ofTurns (ending lines)
        ((p.turns limit settings (through endsWith lines)).map prompted) := by
  induction lines generalizing r p with
  | nil => rfl
  | cons line rest ih =>
    obtain ⟨after, hafter, hat⟩ := at_turn limit settings h hp line
    have hrunning := hat.running_eq
    have hrest : endsWith line = false → _ := fun hends => ih hafter (by simpa [hends] using hat)
    unfold runLines reply through
    simp only [turns, List.map_cons, Transcript.ofTurns, prompted]
    generalize p.turn (runLine limit settings line) = t at hrunning hrest
    cases t.answer with
    | error failure => rfl
    | ok _ =>
      cases hends : endsWith line with
      | true =>
        simp [hrunning, hends, ending, turns, Transcript.ofTurns, Transcript.after,
          Transcript.finished]
      | false => simp [hrunning, hends, hrest hends, ending, Transcript.finished]

end Dialogue

/-! ## The banner -/

namespace Dialogue

end Dialogue

/-! ## The law -/

/-- A lone carriage return belongs to its line in a dialogue whose lines only line feeds end, and
ends a line of a script. -/
example :
    textLines .feed "exit\rx" = ["exit\rx"] ∧ textLines .any "exit\rx" = ["exit", "x"] := by
  decide

end DataLayout
