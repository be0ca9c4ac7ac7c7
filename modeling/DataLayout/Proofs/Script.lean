-- The law of scripts. A script runs its lines one after the other on one program, up to the first
-- exit, and a strict script is the lenient one up to its first failure.
import DataLayout.Proofs.Blank
import DataLayout.Proofs.Session
import DataLayout.Proofs.Wrap
import DataLayout.Script

namespace DataLayout

open Console Text

/-! ## Lines that are executed -/

/-- The elements up to the first one that stops, and that one. -/
def through {α : Type} (stops : α → Bool) : List α → List α
  | [] => []
  | a :: rest => a :: if stops a then [] else through stops rest

namespace Script

/-- A line is a command when it has a word, and the first one does not start with a number
sign. -/
def isCommand (line : String) : Bool :=
  match lineTokens line with
  | [] => false
  | first :: _ => first.toList.head? != some '#'

/-- Skipping looks at the trimmed line, and finds the lines that are no commands. -/
theorem isSkipped_trim (line : String) : isSkipped (trim line.toList) = !isCommand line := by
  rcases trim_cases line.toList with ⟨htrim, hwords⟩ | ⟨c, rest, first, later, htrim, _, hwords⟩
  · simp [isSkipped, isCommand, lineTokens, htrim, hwords]
  · simp [isSkipped, isCommand, lineTokens, htrim, hwords, bne]

/-- The lines that are executed of lines the first of which has the given number: the commands up
to the first one that ends the session. All lines count, also those that are skipped. -/
def executedFrom (number : Nat) (lines : List String) : List (String × Nat) :=
  through (fun line => Program.endsWith line.1)
    ((lines.zipIdx number).filter fun line => isCommand line.1)

section

variable {line : String} (number : Nat) (rest : List String)

theorem executedFrom_cons_of_not_command (h : isCommand line = false) :
    executedFrom number (line :: rest) = executedFrom (number + 1) rest := by
  simp [executedFrom, h]

theorem executedFrom_cons_of_command (h : isCommand line = true) :
    executedFrom number (line :: rest) = (line, number) ::
      if Program.endsWith line then [] else executedFrom (number + 1) rest := by
  simp [executedFrom, h, through]

end

end Script

/-! ## Turns of lines -/

namespace Program

variable {limit : DigitLimit} {settings : Settings} {r : Registry} {p : Program}

theorem parse_trim (line : String) :
    Action.parse (String.ofList (trim line.toList)) = Action.parse line := by
  have htokens : lineTokens (String.ofList (trim line.toList)) = lineTokens line := by
    unfold lineTokens
    rw [String.toList_ofList, words_trim]
  unfold Action.parse
  rw [htokens]

/-- Blanks at the ends of a line make no difference, not even in the log. -/
theorem runLine_trim (line : String) :
    runLine limit settings (String.ofList (trim line.toList)) = runLine limit settings line := by
  have hreject : ∀ message printed, reject limit (String.ofList (trim line.toList)) message printed =
      reject limit line message printed := by
    intro message printed
    unfold reject
    rw [String.toList_ofList, trim_trim]
  have hanswer : answerFailure limit settings (String.ofList (trim line.toList)) =
      answerFailure limit settings line := by
    funext failure
    cases failure <;> simp only [answerFailure, hreject]
  unfold runLine executeLine
  rw [parse_trim, hanswer]

end Program

open Program

theorem Transcript.after_finished (printed : String) (records : List Record) (status : Nat) :
    (finished "" [] status).after printed records = finished printed records status := by
  simp [after, finished]

/-! ## Scripts -/

namespace Script

variable {limit : DigitLimit} {settings : Settings} {strict : Bool} {r : Registry} {p : Program}

/-- The turns of numbered lines. -/
def numberedTurns (limit : DigitLimit) (settings : Settings) (p : Program)
    (lines : List (String × Nat)) : List (Turn Bool × Nat) :=
  (p.turns limit settings (lines.map (·.1))).zip (lines.map (·.2))

theorem numberedTurns_nil (p : Program) : numberedTurns limit settings p [] = [] := rfl

theorem numberedTurns_cons (p : Program) (line : String) (number : Nat)
    (rest : List (String × Nat)) :
    let t := p.turn (runLine limit settings line)
    numberedTurns limit settings p ((line, number) :: rest) =
      (t, number) :: numberedTurns limit settings t.program rest := rfl

/-- What is left of a script whose lines take these turns. A strict one stops at the first line
that fails. -/
def transcript (settings : Settings) (strict : Bool) : List (Turn Bool × Nat) → Transcript
  | [] => .finished "" [] 0
  | (t, number) :: later =>
    match t.answer with
    | .error failure => .broken t.printed t.records failure
    | .ok succeeded =>
      if !succeeded && strict then .finished (t.printed ++ stoppedAt settings number) t.records 1
      else (transcript settings strict later).after t.printed t.records

/-- Turns at which a script does not stop come before what is left of the others. -/
theorem transcript_append {turns : List (Turn Bool × Nat)}
    (h : ∀ t ∈ turns, ∃ succeeded, t.1.answer = .ok succeeded ∧ (!succeeded && strict) = false)
    (later : List (Turn Bool × Nat)) :
    transcript settings strict (turns ++ later) =
      (transcript settings strict later).after (String.join (turns.map (·.1.printed)))
        (turns.flatMap (·.1.records)) := by
  induction turns with
  | nil => simp [Transcript.after]
  | cons t rest ih =>
    obtain ⟨succeeded, hanswer, hgoes⟩ := h t List.mem_cons_self
    have hrest := ih fun u hu => h u (List.mem_cons_of_mem _ hu)
    simp [transcript, hanswer, hgoes, hrest, Transcript.after, String.append_assoc]

/-- A script runs its commands one after the other, up to the first one that ends it or at which
it stops. -/
theorem runLines_eq (h : WellFormed r.entries) (hp : p.At limit r true) (number : Nat)
    (lines : List String) :
    runLines limit settings strict p number lines =
      transcript settings strict
        (numberedTurns limit settings p (executedFrom number lines)) := by
  induction lines generalizing r p number with
  | nil => rfl
  | cons line rest ih =>
    unfold runLines
    simp only [isSkipped_trim, runLine_trim]
    cases hcommand : isCommand line with
    | false => simpa [executedFrom_cons_of_not_command number rest hcommand] using ih h hp _
    | true =>
      rw [executedFrom_cons_of_command number rest hcommand, numberedTurns_cons]
      obtain ⟨after, hafter, hat⟩ := at_turn limit settings h hp line
      have hrunning := hat.running_eq
      have hrest : endsWith line = false → _ := fun hends =>
        ih hafter (by simpa [hends] using hat) (number + 1)
      generalize p.turn (runLine limit settings line) = t at hrunning hrest
      have hlater :
          (if t.program.running then
            (runLines limit settings strict t.program (number + 1) rest).after t.printed t.records
          else .finished t.printed t.records 0) =
          (transcript settings strict (numberedTurns limit settings t.program
            (if endsWith line then [] else executedFrom (number + 1) rest))).after
              t.printed t.records := by
        cases hends : endsWith line with
        | true =>
          simp [hrunning, hends, numberedTurns_nil, transcript, Transcript.after_finished]
        | false => simp [hrunning, hends, hrest hends]
      simp only [transcript]
      cases t.answer with
      | error failure => rfl
      | ok succeeded =>
        cases hgoes : !succeeded && strict with
        | true => simp [hgoes]
        | false => simpa [hgoes] using hlater

/-- The lines that a script executes, with their numbers. -/
def executed (ends : LineEnd) (script : String) : List (String × Nat) :=
  executedFrom 1 (textLines ends script)

/-- The turns of a script, with the numbers of their lines. -/
def turns (limit : DigitLimit) (settings : Settings) (ends : LineEnd) (script : String) :
    List (Turn Bool × Nat) :=
  numberedTurns limit settings (.start .empty) (executed ends script)

theorem run_eq (limit : DigitLimit) (settings : Settings) (strict : Bool) (ends : LineEnd)
    (script : String) :
    run limit settings strict ends script =
      transcript settings strict (turns limit settings ends script) :=
  runLines_eq (Registry.wellFormed_ofCalls limit []) (at_start .empty) 1 (textLines ends script)

/-- A script that stops nowhere prints and records what its turns do. -/
theorem run_of_goes_on (ends : LineEnd) (script : String)
    (h : ∀ t ∈ turns limit settings ends script, ∃ succeeded,
      t.1.answer = .ok succeeded ∧ (!succeeded && strict) = false) :
    run limit settings strict ends script =
      .finished (String.join ((turns limit settings ends script).map (·.1.printed)))
        ((turns limit settings ends script).flatMap (·.1.records)) 0 := by
  rw [run_eq, ← List.append_nil (turns limit settings ends script), transcript_append h]
  simp [transcript, Transcript.after_finished]

/-- The line that says where a script stopped. -/
def stoppedLine (number : Nat) : Line :=
  [⟨"Stopped at line ".toList, .boldColored .red⟩, ⟨digits number, .boldColored .red⟩]

theorem length_stoppedLine (number : Nat) :
    (textOf (stoppedLine number)).length = "Stopped at line ".length + (digits number).length := by
  simp only [textOf, stoppedLine, List.flatMap_cons, List.flatMap_nil, List.append_nil,
    List.length_append, String.length_toList]

section

variable {number : Nat}
  (hfits : "Stopped at line ".length + (digits number).length ≤ settings.width)

include hfits

/-- The line is printed as it is when it fits. -/
theorem stoppedAt_of_fits :
    stoppedAt settings number = paint settings.colors [stoppedLine number] := by
  have hplain : IsPlainLine (stoppedLine number) := by
    intro run hrun
    rcases List.mem_pair.mp hrun with rfl | rfl
    · exact ⟨by decide, List.all_eq_true.mp (by decide)⟩
    · exact ⟨Nat.toDigits_ne_nil, isPlain_of_mem_digits⟩
  exact showLines_wrap_of_fits hplain (length_stoppedLine number ▸ hfits) rfl

theorem stoppedAt_uncolored (hcolors : settings.colors = false) :
    stoppedAt settings number = "Stopped at line " ++ String.ofList (digits number) ++ "\n" := by
  rw [stoppedAt_of_fits hfits, hcolors]
  simp only [paint, stoppedLine, List.flatMap_cons, List.flatMap_nil, List.append_nil,
    paintLine_uncolored, textOf, String.ofList_append, String.ofList_toList]

end

end Script

/-! ## The law -/

/-- A strict script is the lenient one up to its first failure. A script executes its commands in
their order, up to the first one that ends it, and exits with status 0. With no failing line a
strict script leaves the same behind. Else it leaves behind what the lines up to the first failing
one do, the number of that line, and status 1. The number is printed as it is, unless the lines
are too short for it. -/
theorem a_strict_script_is_the_lenient_one_up_to_its_first_failure (limit : DigitLimit)
    (settings : Settings) (ends : LineEnd) (script : String) :
    let turns := Script.turns limit settings ends script
    ((∀ t ∈ turns, ∃ succeeded, t.1.answer = .ok succeeded) →
      Script.run limit settings false ends script =
        .finished (String.join (turns.map (·.1.printed))) (turns.flatMap (·.1.records)) 0) ∧
    ((∀ t ∈ turns, t.1.answer = .ok true) →
      Script.run limit settings true ends script = Script.run limit settings false ends script) ∧
    (∀ n t number, (∀ u ∈ turns.take n, u.1.answer = .ok true) →
      turns[n]? = some (t, number) → t.answer = .ok false →
      Script.run limit settings true ends script =
        .finished (String.join ((turns.take (n + 1)).map (·.1.printed)) ++
          Script.stoppedAt settings number) ((turns.take (n + 1)).flatMap (·.1.records)) 1) ∧
    ∀ number, "Stopped at line ".length + (digits number).length ≤ settings.width →
      Script.stoppedAt settings number = paint settings.colors [Script.stoppedLine number] ∧
      (settings.colors = false → Script.stoppedAt settings number =
        "Stopped at line " ++ String.ofList (digits number) ++ "\n") := by
  intro turns
  refine ⟨fun hanswers => ?_, fun hsucceeds => ?_, ?_, fun number hfits =>
    ⟨Script.stoppedAt_of_fits hfits, Script.stoppedAt_uncolored hfits⟩⟩
  · apply Script.run_of_goes_on
    intro t ht
    obtain ⟨succeeded, hanswer⟩ := hanswers t ht
    exact ⟨succeeded, hanswer, Bool.and_false _⟩
  · rw [Script.run_of_goes_on ends script fun t ht => ⟨true, hsucceeds t ht, rfl⟩,
      Script.run_of_goes_on ends script fun t ht => ⟨true, hsucceeds t ht, rfl⟩]
  · intro n t number hbefore hget hfails
    have hsplit : turns.take n ++ (t, number) :: turns.drop (n + 1) = turns := by
      obtain ⟨hn, hturn⟩ := List.getElem?_eq_some_iff.mp hget
      rw [← hturn, ← List.drop_eq_getElem_cons, List.take_append_drop]
    rw [Script.run_eq, show Script.turns limit settings ends script = _ from hsplit.symm,
      Script.transcript_append fun u hu => ⟨true, hbefore u hu, rfl⟩, List.take_add_one, hget]
    simp [Script.transcript, hfails, Transcript.after, Transcript.finished, String.append_assoc]

/-- A script with a comment, a blank line, a line that fails, and a line behind the exit. -/
def emptyUnionScript : String := "#\natomic a 1 1\n\nunion u\n exit\nx"

theorem an_empty_union_stops_a_strict_script :
    let turns := Script.turns .standard plainScreen .any emptyUnionScript
    turns.map (fun t => (t.1.answer, t.2)) = [(.ok true, 2), (.ok false, 4), (.ok true, 5)] ∧
    (Script.run .standard plainScreen false .any emptyUnionScript).status = 0 ∧
    (Script.run .standard plainScreen true .any emptyUnionScript).status = 1 ∧
    (Script.run .standard plainScreen true .any emptyUnionScript).printed =
      String.join ((turns.take 2).map (·.1.printed)) ++ "Stopped at line 4\n" ∧
    Script.run .standard plainScreen true .any "exit" =
      Script.run .standard plainScreen false .any "exit" := by
  intro turns
  have htaken : turns.map (fun t => (t.1.answer, t.2)) =
      [(.ok true, 2), (.ok false, 4), (.ok true, 5)] := by
    decide +kernel
  have hanswers : ∀ t ∈ turns, ∃ succeeded, t.1.answer = .ok succeeded := by
    intro t ht
    have hmem := List.mem_map_of_mem (f := fun t => (t.1.answer, t.2)) ht
    rw [htaken] at hmem
    simp only [List.mem_cons, Prod.mk.injEq, List.not_mem_nil, or_false] at hmem
    rcases hmem with h | h | h <;> exact ⟨_, h.1⟩
  have hfirst : ∀ u ∈ turns.take 1, u.1.answer = .ok true := by
    intro u hu
    have hmem := List.mem_map_of_mem (f := fun t => (t.1.answer, t.2)) hu
    rw [List.map_take, htaken] at hmem
    exact congrArg Prod.fst (List.mem_singleton.mp hmem)
  have hsecond : turns[1]?.map (fun t => (t.1.answer, t.2)) = some (.ok false, 4) := by
    rw [← List.getElem?_map, htaken]
    rfl
  have hexit : ∀ t ∈ Script.turns .standard plainScreen .any "exit", t.1.answer = .ok true := by
    decide +kernel
  have hfour : "Stopped at line " ++ String.ofList (digits 4) ++ "\n" = "Stopped at line 4\n" := by
    decide
  obtain ⟨⟨t, number⟩, hget, hturn⟩ := Option.map_eq_some_iff.mp hsecond
  obtain ⟨hfails, rfl⟩ := Prod.mk.inj hturn
  obtain ⟨hlenient, _, hstrict, hstopped⟩ :=
    a_strict_script_is_the_lenient_one_up_to_its_first_failure .standard plainScreen
      .any emptyUnionScript
  obtain ⟨_, hsame, _⟩ :=
    a_strict_script_is_the_lenient_one_up_to_its_first_failure .standard plainScreen
      .any "exit"
  have hstop := hstrict 1 t 4 hfirst hget hfails
  refine ⟨htaken, ?_, ?_, ?_, hsame hexit⟩
  · rw [hlenient hanswers]
    rfl
  · rw [hstop]
    rfl
  · rw [hstop, (hstopped 4 (by decide)).2 rfl, hfour]
    rfl

end DataLayout
