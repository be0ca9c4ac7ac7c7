-- The laws of a session. What a line answers, prints and changes depends on the registry, and
-- not on what the engine remembers. A line that succeeds does what its action says, and a line
-- that is refused changes nothing.
import DataLayout.Program
import DataLayout.Proofs.Printed
import DataLayout.Proofs.Writing

namespace DataLayout

open Console Logged Text

/-! ## Actions on a registry -/

namespace Action

/-- The entry that an action adds. -/
def addition? : Action → Option Entry
  | .exit => none
  | .describe _ => none
  | .addAtomic name size alignment => some ⟨name, .atomic size alignment⟩
  | .addStruct name members => some ⟨name, .struct members⟩
  | .addUnion name variants => some ⟨name, .union variants⟩

/-- Whether a session ends with the action. -/
def ends : Action → Bool
  | .exit => true
  | _ => false

/-- An action shows the numbers of the entry that it adds. -/
theorem writable_of_addition {limit : DigitLimit} {action : Action} {e : Entry}
    (h : action.addition? = some e) : action.writable limit = e.definition.writable limit := by
  cases action <;> cases h <;> rfl

theorem ends_of_addition {action : Action} {e : Entry} (h : action.addition? = some e) :
    action.ends = false := by
  cases action <;> cases h <;> rfl

theorem ends_of_not_writable {limit : DigitLimit} {action : Action}
    (h : action.writable limit = false) : action.ends = false := by
  cases action with
  | exit => cases h
  | _ => rfl

end Action

/-- All that an action may come to on a registry: what it answers and prints, and the registry
after it. -/
inductive Registry.Executes (limit : DigitLimit) (settings : Settings) (r : Registry) :
    Action → Except Failure (Option Report × String) → Registry → Prop
  | exit : r.Executes limit settings .exit (.ok (none, "")) r
  | describe {name : String} {report : Report} (hreport : r.report limit name = .ok report)
      (hwritable : report.writable limit = true) :
      r.Executes limit settings (.describe name) (.ok (some report, showReport settings report)) r
  | unknown {name : String} (hname : r.lookup? name = none) :
      r.Executes limit settings (.describe name) (.error (.type (.unknown name))) r
  | unwritten {name : String} (hname : (r.lookup? name).isSome)
      (hnot : ¬ r.Describable limit name) :
      r.Executes limit settings (.describe name) (.error .numeralTooLong) r
  | add {action : Action} {e : Entry} (he : action.addition? = some e)
      (hcheck : r.check e.name e.definition = .ok ()) :
      r.Executes limit settings action (.ok (none, "")) (r.insert e.name e.definition)
  | refuse {action : Action} {e : Entry} {fault : TypeFault} (he : action.addition? = some e)
      (hcheck : r.check e.name e.definition = .error fault) :
      r.Executes limit settings action (.error (.type fault)) r
  | tooLong {action : Action} (hlong : action.writable limit = false) :
      r.Executes limit settings action (.error .numeralTooLong) r

namespace Registry

variable {limit : DigitLimit} {settings : Settings} {r after : Registry}

/-- An action that fails changes nothing, and it fails for a fault of a type or for a number
that is too long. -/
theorem Executes.of_error {action : Action} {failure : Failure}
    (h : r.Executes limit settings action (.error failure) after) :
    after = r ∧ action.ends = false ∧
      (failure = .numeralTooLong ∨
        ∃ fault, failure = .type fault ∧ fault.Reads fault.message) := by
  cases h with
  | unknown _ => exact ⟨rfl, rfl, Or.inr ⟨_, rfl, TypeFault.reads_unknown _⟩⟩
  | unwritten _ _ => exact ⟨rfl, rfl, Or.inl rfl⟩
  | refuse he hcheck =>
    exact ⟨rfl, Action.ends_of_addition he, Or.inr ⟨_, rfl, reads_of_check hcheck⟩⟩
  | tooLong hlong => exact ⟨rfl, Action.ends_of_not_writable hlong, Or.inl rfl⟩

theorem Executes.wellFormed (hwell : WellFormed r.entries) {action : Action}
    {answer : Except Failure (Option Report × String)}
    (h : r.Executes limit settings action answer after) : WellFormed after.entries := by
  cases h with
  | add _ hcheck => exact wellFormed_insert hwell hcheck
  | _ => exact hwell

end Registry

/-! ## Steps that lead on -/

namespace Logged

variable {σ α β : Type} {before mid after : σ → Prop}

/-- From every state of one kind, the step gives this answer and leads to a state of another. -/
def Leads (before after : σ → Prop) (step : Logged σ α) (answer : Except Failure α) : Prop :=
  ∀ t : Trail σ, before t.state → (runOn t step).1 = answer ∧ after (runOn t step).2.state

theorem Leads.exists_eq {step : Logged σ α} {answer : Except Failure α}
    (h : Leads before after step answer) {t : Trail σ} (ht : before t.state) :
    ∃ behind, runOn t step = (answer, behind) ∧ after behind.state := by
  obtain ⟨rfl, hafter⟩ := h t ht
  exact ⟨_, rfl, hafter⟩

theorem leads_bind_ok {step : Logged σ α} {a : α} {next : α → Logged σ β}
    {answer : Except Failure β} (h : Leads before mid step (.ok a))
    (hnext : Leads mid after (next a) answer) : Leads before after (step >>= next) answer := by
  intro t ht
  obtain ⟨behind, hrun, hmid⟩ := h.exists_eq ht
  rw [runOn_bind, hrun]
  exact hnext behind hmid

theorem leads_bind_error {step : Logged σ α} {failure : Failure} (next : α → Logged σ β)
    (h : Leads before after step (.error failure)) :
    Leads before after (step >>= next) (.error failure) := by
  intro t ht
  obtain ⟨behind, hrun, hafter⟩ := h.exists_eq ht
  rw [runOn_bind, hrun]
  exact ⟨rfl, hafter⟩

theorem leads_tryCatch_ok {step : Logged σ α} {a : α} (handler : Failure → Logged σ α)
    (h : Leads before after step (.ok a)) :
    Leads before after (tryCatch step handler) (.ok a) := by
  intro t ht
  obtain ⟨behind, hrun, hafter⟩ := h.exists_eq ht
  rw [runOn_tryCatch, hrun]
  exact ⟨rfl, hafter⟩

theorem leads_tryCatch_error {step : Logged σ α} {failure : Failure}
    {handler : Failure → Logged σ α} {answer : Except Failure α}
    (h : Leads before mid step (.error failure))
    (hhandler : Leads mid after (handler failure) answer) :
    Leads before after (tryCatch step handler) answer := by
  intro t ht
  obtain ⟨behind, hrun, hmid⟩ := h.exists_eq ht
  rw [runOn_tryCatch, hrun]
  exact hhandler behind hmid

end Logged

namespace Registry

variable {limit : DigitLimit} {r : Registry} {name : String} {d : Definition}

theorem leads_register_refused {fault : TypeFault} (hcheck : r.check name d = .error fault) :
    Leads (· = r) (· = r) (register limit name (.ofDefinition d)) (.error (.type fault)) := by
  rintro ⟨_, records⟩ rfl
  have hoffer := Offer.definition?_ofDefinition d
  simp [register, accept, runOn_bind, hoffer, hcheck]

theorem leads_register (hd : d.writable limit = true) (hcheck : r.check name d = .ok ()) :
    Leads (· = r) (· = r.insert name d) (register limit name (.ofDefinition d)) (.ok ()) := by
  rintro ⟨_, records⟩ rfl
  have hoffer := Offer.definition?_ofDefinition d
  have hrecord : (Record.registered name d).writable limit = true := hd
  simp [register, accept, runOn_bind, runOn_note, hoffer, hcheck, hrecord]

end Registry

/-! ## Steps of a session -/

namespace Program

variable {limit : DigitLimit} {settings : Settings} {r after : Registry} {running : Bool}

/-- A session stands on a registry, it runs or not, and its engine is sound. -/
structure At (limit : DigitLimit) (r : Registry) (running : Bool) (p : Program) : Prop where
  registry_eq : p.registry = r
  running_eq : p.running = running
  engine : p.engine.Sound limit r

theorem gives_ask {α : Type} {question : Registry → Logged Engine α} {answer : Except Failure α}
    (h : Gives (Engine.Sound limit r) (question r) answer) :
    Gives (At limit r running) (ask question) answer := by
  apply gives_state_bind
  intro p hp
  rw [hp.registry_eq]
  exact gives_within h (fun p hp => hp.engine) fun p e hp he => ⟨hp.registry_eq, hp.running_eq, he⟩

theorem leads_onRegistry {α : Type} {step : Logged Registry α} {answer : Except Failure α}
    (h : Leads (· = r) (· = after) step answer)
    (hengine : ∀ e : Engine, e.Sound limit r → e.Sound limit after) :
    Leads (At limit r running) (At limit after running) (onRegistry step) answer := by
  intro t ht
  obtain ⟨hanswer, hafter⟩ := h ⟨t.state.registry, t.records⟩ ht.registry_eq
  unfold onRegistry
  rw [runOn_within]
  exact ⟨hanswer, hafter, ht.running_eq, hengine _ ht.engine⟩

theorem leads_add_refused {name : String} {d : Definition} {fault : TypeFault}
    (hcheck : r.check name d = .error fault) :
    Leads (At limit r running) (At limit r running) (add limit name d) (.error (.type fault)) :=
  leads_bind_error _ (leads_onRegistry (Registry.leads_register_refused hcheck) fun _ he => he)

theorem leads_add (h : WellFormed r.entries) {name : String} {d : Definition}
    (hd : d.writable limit = true) (hcheck : r.check name d = .ok ()) :
    Leads (At limit r running) (At limit (r.insert name d) running) (add limit name d)
      (.ok (none, "")) := by
  have hcall := Registry.call_of_check limit (c := ⟨name, .ofDefinition d⟩)
    (Offer.definition?_ofDefinition d) hcheck
  have hengine : ∀ e : Engine, e.Sound limit r → e.Sound limit (r.insert name d) := by
    intro e he
    have hafter := he.call h ⟨name, .ofDefinition d⟩
    rwa [hcall] at hafter
  exact leads_bind_ok (leads_onRegistry (Registry.leads_register hd hcheck) hengine)
    (gives_pure _)

/-- An action goes on record, or its numbers are too long for that. -/
theorem gives_noteAction (action : Action) :
    Gives (At limit r running) (note limit (.executing action))
      (if action.writable limit then .ok () else .error .numeralTooLong) :=
  gives_note limit (.executing action)

section

variable {action : Action} {e : Entry} (he : action.addition? = some e)
  (hwritable : action.writable limit = true)

include he in
theorem execute_of_addition : execute limit settings action =
    note limit (.executing action) >>= fun _ => add limit e.name e.definition := by
  cases action <;> cases he <;> rfl

include he hwritable in
/-- An action does not add an entry that the check refuses. -/
theorem leads_refusal {fault : TypeFault} (hcheck : r.check e.name e.definition = .error fault) :
    Leads (At limit r running) (At limit r running) (execute limit settings action)
      (.error (.type fault)) := by
  have hnote : Gives (At limit r running) (note limit (.executing action)) _ :=
    gives_noteAction action
  rw [hwritable, if_pos rfl] at hnote
  rw [execute_of_addition he]
  exact leads_bind_ok hnote (leads_add_refused hcheck)

include he hwritable in
/-- An action adds its entry when it passes the check. -/
theorem leads_addition (h : WellFormed r.entries)
    (hcheck : r.check e.name e.definition = .ok ()) :
    Leads (At limit r running) (At limit (r.insert e.name e.definition) running)
      (execute limit settings action) (.ok (none, "")) := by
  have hnote : Gives (At limit r running) (note limit (.executing action)) _ :=
    gives_noteAction action
  rw [hwritable, if_pos rfl] at hnote
  rw [execute_of_addition he]
  rw [Action.writable_of_addition he] at hwritable
  exact leads_bind_ok hnote (leads_add h hwritable hcheck)

end

variable (limit settings) in
/-- A description shows the report, or it fails and changes nothing. -/
theorem leads_describe (h : WellFormed r.entries) (name : String) :
    ∃ answer, r.Executes limit settings (.describe name) answer r ∧
      ∀ running, Leads (At limit r running) (At limit r running)
        (do
          let report ← ask fun r => Engine.report limit r name
          if report.writable limit then return (some report, showReport settings report)
          else throw .numeralTooLong) answer := by
  have hask : ∀ running, Gives (At limit r running) (ask fun r => Engine.report limit r name)
      (r.report limit name) := fun running => gives_ask (Engine.gives_report h name)
  cases hname : (r.lookup? name).isSome with
  | false =>
    have hnone : r.lookup? name = none := by simpa using hname
    rw [Registry.report_of_none hnone] at hask
    exact ⟨_, .unknown hnone, fun running => leads_bind_error _ (hask running)⟩
  | true =>
    by_cases hdescribable : r.Describable limit name
    · obtain ⟨report, hreport, hwritable⟩ :=
        Registry.report_of_describable h hname hdescribable
      rw [hreport] at hask
      refine ⟨_, .describe hreport hwritable, fun running => leads_bind_ok (hask running) ?_⟩
      rw [if_pos hwritable]
      exact gives_pure _
    · refine ⟨_, .unwritten hname hdescribable, fun running => ?_⟩
      rcases Registry.report_of_not_describable h hname hdescribable with
        hreport | ⟨report, hreport, hwritable⟩
      · rw [hreport] at hask
        exact leads_bind_error _ (hask running)
      · rw [hreport] at hask
        refine leads_bind_ok (hask running) ?_
        rw [if_neg (by simp [hwritable])]
        exact gives_throw _

variable (limit settings) in
/-- An action comes to one of the things that it may come to, and to the same from every
session on the registry. -/
theorem leads_execute (h : WellFormed r.entries) (action : Action) :
    ∃ answer after, r.Executes limit settings action answer after ∧
      ∀ running, Leads (At limit r running) (At limit after (running && !action.ends))
        (execute limit settings action) answer := by
  have hnote : ∀ running, Gives (At limit r running) (note limit (.executing action)) _ :=
    fun _ => gives_noteAction action
  cases hwritable : action.writable limit with
  | false =>
    rw [hwritable] at hnote
    refine ⟨_, r, .tooLong hwritable, fun running => ?_⟩
    rw [Action.ends_of_not_writable hwritable, Bool.not_false, Bool.and_true]
    exact leads_bind_error _ (hnote running)
  | true =>
    rw [hwritable] at hnote
    -- The three additions are one step, and each of the other actions is its own.
    cases he : action.addition? with
    | some e =>
      rw [Action.ends_of_addition he]
      simp only [Bool.not_false, Bool.and_true]
      cases hcheck : r.check e.name e.definition with
      | error fault =>
        exact ⟨_, r, .refuse he hcheck, fun _ => leads_refusal he hwritable hcheck⟩
      | ok _ => exact ⟨_, _, .add he hcheck, fun _ => leads_addition he hwritable h hcheck⟩
    | none =>
      cases action with
      | exit =>
        refine ⟨_, r, .exit, fun running => leads_bind_ok (hnote running) ?_⟩
        intro t ht
        exact ⟨rfl, ht.registry_eq, (Bool.and_false running).symm, ht.engine⟩
      | describe name =>
        obtain ⟨answer, hexecutes, hleads⟩ := leads_describe limit settings h name
        refine ⟨answer, r, hexecutes, fun running => leads_bind_ok (hnote running) ?_⟩
        simp only [Action.ends, Bool.not_false, Bool.and_true]
        exact hleads running
      | addAtomic name size alignment => cases he
      | addStruct name members => cases he
      | addUnion name variants => cases he

/-! ## Turns -/

/-- What is printed with an answer. A step that fails prints nothing. -/
def printedWith {α : Type} : Except Failure (α × String) → String
  | .ok (_, printed) => printed
  | .error _ => ""

theorem turn_of_leads {α : Type} {before after : Program → Prop}
    {step : Logged Program (α × String)} {answer : Except Failure (α × String)}
    (h : Leads before after step answer) {p : Program} (hp : before p) :
    (p.turn step).answer = answer.map (·.1) ∧ (p.turn step).printed = printedWith answer ∧
      after (p.turn step).program := by
  obtain ⟨behind, hrun, hafter⟩ := h.exists_eq (t := ⟨p, []⟩) hp
  unfold turn runFrom
  rw [hrun]
  cases answer with
  | error failure => exact ⟨rfl, rfl, hafter⟩
  | ok given => exact ⟨rfl, rfl, hafter⟩

/-! ## Lines of a session -/

/-- Whether a session ends with a line. -/
def endsWith (line : String) : Bool :=
  match Action.parse line with
  | .ok action => action.ends
  | .error _ => false

/-- All that a line may come to on a registry. The action of a refused line fails in every
session on the registry. -/
inductive Runs (limit : DigitLimit) (settings : Settings) (r : Registry) (line : String) :
    Except Failure (Bool × String) → Registry → Prop
  | performed {action : Action} {shown : Option Report} {printed : String} {after : Registry}
      (hparse : Action.parse line = .ok action)
      (hexecutes : r.Executes limit settings action (.ok (shown, printed)) after) :
      Runs limit settings r line (.ok (true, printed)) after
  | refused {action : Action} {fault : TypeFault} (hparse : Action.parse line = .ok action)
      (hexecutes : r.Executes limit settings action (.error (.type fault)) r)
      (hfails : ∀ p running, At limit r running p →
        (p.turn (execute limit settings action)).answer = .error (.type fault)) :
      Runs limit settings r line (.ok (false, showTypeFault settings fault.message)) r
  | misread {fault : CommandFault} {message : String} (hparse : Action.parse line = .error fault)
      (hmessage : fault.message? = some message) :
      Runs limit settings r line (.ok (false, showCommandFault settings message)) r
  | broken {action : Action} (hparse : Action.parse line = .ok action)
      (hexecutes : r.Executes limit settings action (.error .numeralTooLong) r) :
      Runs limit settings r line (.error .numeralTooLong) r

theorem Runs.wellFormed (h : WellFormed r.entries) {line : String}
    {answer : Except Failure (Bool × String)} (hruns : Runs limit settings r line answer after) :
    WellFormed after.entries := by
  cases hruns with
  | performed _ hexecutes => exact hexecutes.wellFormed h
  | _ => exact h

/-- A line that does not succeed changes nothing. -/
theorem Runs.of_not_performed {line : String} {answer : Except Failure (Bool × String)}
    (hruns : Runs limit settings r line answer after) (hanswer : answer.map (·.1) ≠ .ok true) :
    after = r ∧ endsWith line = false := by
  unfold endsWith
  cases hruns with
  | performed _ _ => exact absurd rfl hanswer
  | refused hparse hexecutes _ =>
    rw [hparse]
    exact ⟨rfl, hexecutes.of_error.2.1⟩
  | misread hparse _ =>
    rw [hparse]
    exact ⟨rfl, rfl⟩
  | broken hparse hexecutes =>
    rw [hparse]
    exact ⟨rfl, hexecutes.of_error.2.1⟩

theorem leads_reject (line message printed : String) :
    Leads (At limit r running) (At limit r running) (reject limit line message printed)
      (.ok (false, printed)) :=
  leads_bind_ok (gives_note limit _) (gives_pure _)

variable (limit settings) in
/-- A line comes to one of the things that it may come to, and to the same in every session on
the registry. -/
theorem leads_runLine (h : WellFormed r.entries) (line : String) :
    ∃ answer after, Runs limit settings r line answer after ∧
      ∀ running, Leads (At limit r running) (At limit after (running && !endsWith line))
        (runLine limit settings line) answer := by
  cases hparse : Action.parse line with
  | error fault =>
    obtain ⟨message, hmessage⟩ := Action.message_of_parse hparse
    refine ⟨_, r, .misread hparse hmessage, fun running => ?_⟩
    have hline : executeLine limit settings line = throw (.command fault) := by
      unfold executeLine
      rw [hparse]
    have hhandler : answerFailure limit settings line (.command fault) =
        reject limit line message (showCommandFault settings message) := by
      simp only [answerFailure, hmessage]
    unfold runLine endsWith
    rw [hline, hparse, Bool.not_false, Bool.and_true]
    refine leads_tryCatch_error (leads_bind_error _ (gives_throw _)) ?_
    rw [hhandler]
    exact leads_reject line _ _
  | ok action =>
    obtain ⟨answer, after, hexecutes, hleads⟩ := leads_execute limit settings h action
    have hline : executeLine limit settings line = execute limit settings action := by
      unfold executeLine
      rw [hparse]
    unfold runLine endsWith
    rw [hline, hparse]
    cases answer with
    | ok given =>
      obtain ⟨shown, printed⟩ := given
      exact ⟨_, after, .performed hparse hexecutes, fun running =>
        leads_tryCatch_ok _ (leads_bind_ok (hleads running) (gives_pure _))⟩
    | error failure =>
      obtain ⟨rfl, _, rfl | ⟨fault, rfl, _⟩⟩ := hexecutes.of_error
      · exact ⟨_, after, .broken hparse hexecutes, fun running =>
          leads_tryCatch_error (leads_bind_error _ (hleads running)) (gives_throw _)⟩
      · have hfails : ∀ p running, At limit after running p →
            (p.turn (execute limit settings action)).answer = .error (.type fault) :=
          fun p running hp => (turn_of_leads (hleads running) hp).1
        exact ⟨_, after, .refused hparse hexecutes hfails, fun running =>
          leads_tryCatch_error (leads_bind_error _ (hleads running)) (leads_reject line _ _)⟩

/-! ## Sessions that do not differ -/

/-- What an engine of a session answers to a question that is not a line. -/
def answer (limit : DigitLimit) (p : Program) (q : Question) : Except Failure q.Answer :=
  (Workshop.new p.registry).answer limit p.engine q

/-- To every question and to all later lines, one session answers as the other. -/
structure Alike (limit : DigitLimit) (settings : Settings) (p q : Program) : Prop where
  registry_eq : q.registry = p.registry
  answer_eq : ∀ question, q.answer limit question = p.answer limit question
  replies_eq : ∀ lines, q.replies limit settings lines = p.replies limit settings lines

theorem At.answer_eq (h : WellFormed r.entries) {p : Program} (hp : p.At limit r running)
    (q : Question) : p.answer limit q = q.plain limit r := by
  obtain ⟨rfl, _, hengine⟩ := hp
  exact (Workshop.sound_new h).answer_eq hengine q

/-- Sessions on the same registry reply in the same way, whatever their engines remember and
whether they still run. -/
theorem At.replies_eq (h : WellFormed r.entries) {p q : Program} {running running' : Bool}
    (hp : p.At limit r running) (hq : q.At limit r running') (lines : List String) :
    q.replies limit settings lines = p.replies limit settings lines := by
  induction lines generalizing r p q running running' with
  | nil => rfl
  | cons line rest ih =>
    -- What the line comes to was settled by the registry, so it is the same for both.
    obtain ⟨answer, after, hruns, hleads⟩ := leads_runLine limit settings h line
    obtain ⟨hpanswer, hpprinted, hpafter⟩ := turn_of_leads (hleads running) hp
    obtain ⟨hqanswer, hqprinted, hqafter⟩ := turn_of_leads (hleads running') hq
    simp only [replies]
    rw [hpanswer, hpprinted, hqanswer, hqprinted, ih (hruns.wellFormed h) hpafter hqafter]

theorem At.alike (h : WellFormed r.entries) {p q : Program} {running running' : Bool}
    (hp : p.At limit r running) (hq : q.At limit r running') : p.Alike limit settings q where
  registry_eq := hq.registry_eq.trans hp.registry_eq.symm
  answer_eq := fun question => (hq.answer_eq h question).trans (hp.answer_eq h question).symm
  replies_eq := hp.replies_eq h hq

variable (limit settings) in
/-- A line leaves a session somewhere, and it runs on if it ran, unless the line ends it. -/
theorem at_turn (h : WellFormed r.entries) {p : Program} (hp : p.At limit r running)
    (line : String) : ∃ after, WellFormed after.entries ∧
      (p.turn (runLine limit settings line)).program.At limit after
        (running && !endsWith line) := by
  obtain ⟨answer, after, hruns, hleads⟩ := leads_runLine limit settings h line
  obtain ⟨_, _, hafter⟩ := turn_of_leads (hleads running) hp
  exact ⟨after, hruns.wellFormed h, hafter⟩

variable (limit settings) in
/-- Lines leave a session somewhere, and a session that does not run never runs again. -/
theorem at_afterLines (h : WellFormed r.entries) {p : Program} (hp : p.At limit r running)
    (lines : List String) :
    ∃ after running', WellFormed after.entries ∧
      (p.afterLines limit settings lines).At limit after running' ∧
      (running = false → running' = false) := by
  induction lines generalizing r p running with
  | nil => exact ⟨r, running, h, hp, id⟩
  | cons line rest ih =>
    obtain ⟨next, hwell, hnext⟩ := at_turn limit settings h hp line
    obtain ⟨after, running', hafter, hat, hstopped⟩ := ih hwell hnext
    refine ⟨after, running', hafter, hat, fun hstop => hstopped ?_⟩
    rw [hstop, Bool.false_and]

theorem at_start (r : Registry) : (start r).At limit r true := ⟨rfl, rfl, Engine.sound_empty⟩

/-! ## The law -/

/-- What a refused line prints, and why it is refused: it is no command, or its action fails for
a fault of a type. -/
inductive Refuses (limit : DigitLimit) (settings : Settings) (p : Program) (line : String) :
    String → Prop
  | misread {fault : CommandFault} {message : String} (hparse : Action.parse line = .error fault)
      (hmessage : fault.message? = some message) (hreads : fault.Reads message)
      (hprinted : PrintsFault settings "[ERROR]" message (showCommandFault settings message)) :
      Refuses limit settings p line (showCommandFault settings message)
  | refused {action : Action} {fault : TypeFault} (hparse : Action.parse line = .ok action)
      (hfails : (p.turn (execute limit settings action)).answer = .error (.type fault))
      (hreads : fault.Reads fault.message)
      (hprinted : PrintsFault settings "[TYPE ERROR]" fault.message
        (showTypeFault settings fault.message)) :
      Refuses limit settings p line (showTypeFault settings fault.message)

/-- What an action does that succeeds: what is printed, and the session after it. A report is
printed as a table, where the screen has room for it. -/
inductive Performs (limit : DigitLimit) (settings : Settings) (p : Program) :
    Action → String → Program → Prop
  | exit {after : Program} (hstopped : after.running = false)
      (halike : p.Alike limit settings after) : Performs limit settings p .exit "" after
  | describe {name printed : String} {report : Report} {after : Program}
      (hreport : p.registry.report limit name = .ok report)
      (hprinted : (reportTable settings.pictures report).width ≤ settings.width →
        printed = showReport settings report ∧ PrintsReport settings report printed)
      (hrunning : after.running = p.running) (halike : p.Alike limit settings after) :
      Performs limit settings p (.describe name) printed after
  | add {action : Action} {e : Entry} {after : Program} (he : action.addition? = some e)
      (hnew : e.name ∉ p.registry.names)
      (hnames : after.registry.names = p.registry.names ++ [e.name])
      (hself : after.registry.lookup? e.name = some e.definition)
      (hothers : ∀ n, n ≠ e.name → after.registry.lookup? n = p.registry.lookup? n)
      (hrunning : after.running = p.running) : Performs limit settings p action "" after

theorem performs_of_executes (h : WellFormed r.entries) {p q : Program}
    (hp : p.At limit r running) {action : Action} {shown : Option Report} {printed : String}
    (hexecutes : r.Executes limit settings action (.ok (shown, printed)) after)
    (hq : q.At limit after (running && !action.ends)) :
    p.Performs limit settings action printed q := by
  cases hexecutes with
  | exit => exact .exit (hq.running_eq.trans (Bool.and_false running)) (hp.alike h hq)
  | describe hreport _ =>
    have hrunning : q.running = running := hq.running_eq.trans (Bool.and_true running)
    exact .describe (hp.registry_eq ▸ hreport) (fun hroom => ⟨rfl, printsReport hroom⟩)
      (hrunning.trans hp.running_eq.symm) (hp.alike h hq)
  | @add _ e he hcheck =>
    have hgains := Registry.gains_insert hcheck
    rw [Action.ends_of_addition he, Bool.not_false, Bool.and_true] at hq
    obtain ⟨rfl, hrunning, _⟩ := hp
    rw [← hq.registry_eq] at hgains
    exact .add he hgains.new hgains.names_eq hgains.lookup_self hgains.lookup_of_ne
      (hq.running_eq.trans hrunning.symm)

end Program

open Program

/-- A line either does what it says or changes nothing. In every session that lines have led to,
on any registry that calls can fill, a line that is refused prints its fault, and the session
goes on as if the line had not been there. A line that succeeds does exactly what its action
says. A session that has ended stays so, whatever lines follow. -/
theorem a_line_does_what_it_says_or_changes_nothing (limit : DigitLimit) (settings : Settings)
    (calls : List Call) (lines : List String) (line : String) :
    let p := (start (.ofCalls limit calls)).afterLines limit settings lines
    let t := p.turn (runLine limit settings line)
    (t.answer = .ok false → p.Refuses limit settings line t.printed ∧
      t.program.running = p.running ∧ p.Alike limit settings t.program) ∧
    (t.answer = .ok true → ∃ action, Action.parse line = .ok action ∧
      p.Performs limit settings action t.printed t.program) ∧
    (p.running = false → ∀ more, (p.afterLines limit settings more).running = false) := by
  intro p t
  obtain ⟨r, running, h, hp, _⟩ := at_afterLines limit settings
    (Registry.wellFormed_ofCalls limit calls) (at_start _) lines
  obtain ⟨answer, after, hruns, hleads⟩ := leads_runLine limit settings h line
  obtain ⟨hanswer, hprinted, hafter⟩ := turn_of_leads (hleads running) hp
  change t.answer = _ at hanswer
  change t.printed = _ at hprinted
  rw [hanswer, hprinted]
  refine ⟨fun hfalse => ?_, fun htrue => ?_, fun hstopped more => ?_⟩
  · obtain ⟨rfl, hstays⟩ := hruns.of_not_performed (by simp [hfalse])
    rw [hstays, Bool.not_false, Bool.and_true] at hafter
    refine ⟨?_, hafter.running_eq.trans hp.running_eq.symm, hp.alike h hafter⟩
    cases hruns with
    | performed _ _ => cases hfalse
    | refused hparse hexecutes hfails =>
      obtain ⟨_, _, hlong | ⟨_, hfault, hreads⟩⟩ := hexecutes.of_error
      · cases hlong
      · cases hfault
        exact .refused hparse (hfails p running hp) hreads (printsFault_type settings hreads)
    | misread hparse hmessage =>
      have hreads := Action.reads_of_parse hparse hmessage
      exact .misread hparse hmessage hreads (printsFault_command settings hreads)
    | broken _ _ => cases hfalse
  · cases hruns with
    | @performed action shown printed after hparse hexecutes =>
      refine ⟨action, hparse, ?_⟩
      have hends : endsWith line = action.ends := by
        unfold endsWith
        rw [hparse]
      rw [hends] at hafter
      exact performs_of_executes h hp hexecutes hafter
    | refused _ _ _ => cases htrue
    | misread _ _ => cases htrue
    | broken _ _ => cases htrue
  · obtain ⟨_, _, _, hmore, hstays⟩ := at_afterLines limit settings h hp more
    exact hmore.running_eq.trans (hstays (hp.running_eq.symm.trans hstopped))

/-- A number, the end of the session, and one more number. -/
def endedLines : List String := ["atomic int 4 4", "exit", "atomic char 1 1"]

/-- A screen of 80 columns, without colours and pictures. -/
def plainScreen : Settings := ⟨80, false, .none⟩

theorem a_ghost_changes_nothing_and_a_pair_is_added :
    let p := (start (.ofCalls .standard [])).afterLines .standard plainScreen endedLines
    let ghost := p.turn (runLine .standard plainScreen "struct loop ghost")
    let pair := p.turn (runLine .standard plainScreen "struct pair int char")
    let shown := p.turn (runLine .standard plainScreen "describe int")
    p.running = false ∧
      (ghost.answer = .ok false ∧ p.Alike .standard plainScreen ghost.program ∧
        ghost.printed = "[TYPE ERROR] [TYPE_DOES_NOT_EXIST] The symbol does not exist: 'ghost'\n") ∧
      (pair.answer = .ok true ∧ pair.program.registry.names = ["int", "char", "pair"]) ∧
      (shown.answer = .ok true ∧ ∃ title table ordering,
        shown.printed = title ++ table ++ ordering ∧
          ["Packed", "4", "4", "0"] ∈ printedRows table) ∧
      (p.afterLines .standard plainScreen ["struct pair int char"]).running = false := by
  intro p ghost pair shown
  have hstopped : p.running = false := by decide
  have hghost : ghost.answer = .ok false := by decide
  have hpair : pair.answer = .ok true := by decide
  have hshown : shown.answer = .ok true := by decide
  obtain ⟨hrefused, _, hstays⟩ := a_line_does_what_it_says_or_changes_nothing .standard
    plainScreen [] endedLines "struct loop ghost"
  obtain ⟨_, hadds, _⟩ := a_line_does_what_it_says_or_changes_nothing .standard
    plainScreen [] endedLines "struct pair int char"
  obtain ⟨_, hdescribes, _⟩ := a_line_does_what_it_says_or_changes_nothing .standard
    plainScreen [] endedLines "describe int"
  refine ⟨hstopped, ⟨hghost, (hrefused hghost).2.2, ?_⟩, ⟨hpair, ?_⟩, ⟨hshown, ?_⟩,
    hstays hstopped _⟩
  · have hread : Action.parse "struct loop ghost" = .ok (.addStruct "loop" ["ghost"]) := by decide
    have hfault : (p.turn (execute .standard plainScreen (.addStruct "loop" ["ghost"]))).answer =
        .error (.type (.unknown "ghost")) := by decide
    have hrefuses := (hrefused hghost).1
    change p.Refuses _ _ _ ghost.printed at hrefuses
    generalize ghost.printed = printed at hrefuses ⊢
    cases hrefuses with
    | misread hparse _ _ _ =>
      rw [hread] at hparse
      cases hparse
    | refused hparse hfails _ hprinted =>
      rw [hread] at hparse
      cases hparse
      rw [hfault] at hfails
      cases hfails
      exact hprinted.eq_of_plain (List.all_eq_true.mp (by decide)) (by decide)
  · obtain ⟨action, hparse, hperforms⟩ := hadds hpair
    have hread : Action.parse "struct pair int char" = .ok (.addStruct "pair" ["int", "char"]) := by
      decide
    rw [hread] at hparse
    cases hparse
    cases hperforms with
    | add he _ hnames _ _ _ =>
      cases he
      exact hnames
  · obtain ⟨action, hparse, hperforms⟩ := hdescribes hshown
    have hread : Action.parse "describe int" = .ok (.describe "int") := by decide
    rw [hread] at hparse
    cases hparse
    change p.Performs _ _ _ shown.printed _ at hperforms
    generalize shown.printed = printed at hperforms ⊢
    cases hperforms with
    | describe hreport hprinted _ _ =>
      have hint : p.registry.report .standard "int" =
          .ok ⟨"int", .atomic, ⟨4, 4, 0⟩, ⟨4, 4, 0⟩, ⟨4, 4, 0⟩, none⟩ := by decide
      rw [hint] at hreport
      cases hreport
      have hrow : numberRow "Packed" ⟨4, 4, 0⟩ = ["Packed", "4", "4", "0"] := by decide
      obtain ⟨_, ⟨_, ⟨_, htable⟩, _⟩⟩ := hprinted (by decide +kernel)
      refine ⟨_, _, _, rfl, ?_⟩
      rw [htable, ← hrow]
      simp
    | add he _ _ _ _ _ => cases he

end DataLayout
