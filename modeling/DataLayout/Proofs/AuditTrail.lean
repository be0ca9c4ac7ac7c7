-- The law of the log of a session. Each line leaves its action in the log, then what it added or
-- found, and at last whether it was refused. So the log of a session tells its registry.
import DataLayout.Proofs.LogLines
import DataLayout.Proofs.SearchLog
import DataLayout.Proofs.Session

namespace DataLayout

open Console Logged Text

/-! ## Records -/

/-- An entry as it stands in the log. -/
def Entry.record (e : Entry) : Record := .registered e.name e.definition

/-- A refused line as it stands in the log. -/
def rejection (line message : String) : Record :=
  .rejected (String.ofList (trim line.toList)) message

namespace Record

/-- The entry that was added, if the record is one of a registration. -/
def registered? : Record → Option Entry
  | .registered name d => some ⟨name, d⟩
  | _ => none

def isRejection : Record → Bool
  | .rejected _ _ => true
  | _ => false

end Record

/-- What a line may leave in the log: by what it answers, the records of the line and the registry
after it. The rejection of a refused line has the message of its fault. A line that breaks off may
have left the start of its records. -/
inductive Program.Logs (limit : DigitLimit) (settings : Settings) (p : Program) (line : String) :
    Except Failure Bool → List Record → Registry → Prop
  | misread {fault : CommandFault} {message : String} (hparse : Action.parse line = .error fault)
      (hreads : fault.Reads message) :
      Logs limit settings p line (.ok false) [rejection line message] p.registry
  | performed {action : Action} {added : Option Entry} {searches : List Finding}
      {after : Registry} (hparse : Action.parse line = .ok action)
      (hadded : ∀ e ∈ added, action.addition? = some e)
      (hentries : after.entries = added.toList ++ p.registry.entries)
      (hsearches : searches ≠ [] → ∃ name, action = .describe name) :
      Logs limit settings p line (.ok true)
        (.executing action :: (added.toList.map Entry.record ++ searches.map Finding.record)) after
  | refused {action : Action} {fault : TypeFault} {message : String} {searches : List Finding}
      (hparse : Action.parse line = .ok action)
      (hfails : (p.turn (execute limit settings action)).answer = .error (.type fault))
      (hreads : fault.Reads message)
      (hsearches : searches ≠ [] → ∃ name, action = .describe name) :
      Logs limit settings p line (.ok false)
        (.executing action :: (searches.map Finding.record ++ [rejection line message]))
        p.registry
  | broken {failure : Failure} {action : Action} {searches : List Finding} {records : List Record}
      (hparse : Action.parse line = .ok action)
      (hrecords : records <+: .executing action :: searches.map Finding.record) :
      Logs limit settings p line (.error failure) records p.registry

/-! ## What is told by the records of a line -/

namespace Record

theorem filterMap_registered?_findings (searches : List Finding) :
    (searches.map Finding.record).filterMap registered? = [] := by
  rw [List.filterMap_map]
  exact List.filterMap_eq_nil_iff.mpr fun _ _ => rfl

theorem filterMap_registered?_entries (entries : List Entry) :
    (entries.map Entry.record).filterMap registered? = entries := by
  rw [List.filterMap_map]
  exact List.filterMap_some

theorem countP_isRejection_findings (searches : List Finding) :
    (searches.map Finding.record).countP isRejection = 0 := by
  rw [List.countP_map]
  exact List.countP_eq_zero.mpr fun _ _ => Bool.false_ne_true

theorem countP_isRejection_entries (entries : List Entry) :
    (entries.map Entry.record).countP isRejection = 0 := by
  rw [List.countP_map]
  exact List.countP_eq_zero.mpr fun _ _ => Bool.false_ne_true

end Record

namespace Program.Logs

variable {limit : DigitLimit} {settings : Settings} {p : Program} {line : String}
  {answer : Except Failure Bool} {records : List Record} {after : Registry}

/-- The registrations in the records of a line are what the line has added. -/
theorem entries_eq (h : p.Logs limit settings line answer records after) :
    after.entries = (records.filterMap Record.registered?).reverse ++ p.registry.entries := by
  cases h with
  | misread _ _ => rfl
  | @performed action added searches _ _ _ hentries _ =>
    rw [hentries, List.filterMap_cons_none rfl, List.filterMap_append,
      Record.filterMap_registered?_entries, Record.filterMap_registered?_findings]
    cases added <;> rfl
  | refused _ _ _ _ =>
    rw [List.filterMap_cons_none rfl, List.filterMap_append,
      Record.filterMap_registered?_findings]
    rfl
  | @broken _ action searches _ _ hrecords =>
    have hnone := hrecords.filterMap Record.registered?
    rw [List.filterMap_cons_none rfl, Record.filterMap_registered?_findings] at hnone
    rw [List.prefix_nil.mp hnone]
    rfl

/-- The records of a line hold one rejection if it was refused, and none if not. -/
theorem countP_isRejection (h : p.Logs limit settings line answer records after) :
    records.countP Record.isRejection = if answer = .ok false then 1 else 0 := by
  cases h with
  | misread _ _ => rfl
  | @performed action added searches _ _ _ _ _ =>
    rw [List.countP_cons_of_neg Bool.false_ne_true, List.countP_append,
      Record.countP_isRejection_entries, Record.countP_isRejection_findings]
    rfl
  | refused _ _ _ _ =>
    rw [List.countP_cons_of_neg Bool.false_ne_true, List.countP_append,
      Record.countP_isRejection_findings]
    rfl
  | @broken _ action searches _ _ hrecords =>
    have hfew := hrecords.sublist.countP_le (p := Record.isRejection)
    rw [List.countP_cons_of_neg Bool.false_ne_true, Record.countP_isRejection_findings] at hfew
    exact Nat.le_zero.mp hfew

end Program.Logs

/-! ## Lines of the log -/

/-- A line of the log tells of a registration. -/
def saysRegistered (said : String) : Bool :=
  "[DEBUG] Registered type ".toList.isPrefixOf said.toList

/-- A line of the log tells of a refusal. -/
def saysRejected (said : String) : Bool := "[INFO] Rejected ".toList.isPrefixOf said.toList

namespace Record

theorem saysRegistered_line (record : Record) :
    saysRegistered record.line = record.registered?.isSome := by
  cases record with
  | registered name d => simp [saysRegistered, line_registered, registered?]
  | ordered members ordering size =>
    simp [saysRegistered, line_ordered, registered?, List.isPrefixOf]
  | executing action => simp [saysRegistered, line_executing, registered?, List.isPrefixOf]
  | attempting value => simp [saysRegistered, line_attempting, registered?, List.isPrefixOf]
  | rejected refused message => simp [saysRegistered, line_rejected, registered?, List.isPrefixOf]

theorem saysRejected_line (record : Record) :
    saysRejected record.line = record.isRejection := by
  cases record with
  | registered name d => simp [saysRejected, line_registered, isRejection, List.isPrefixOf]
  | ordered members ordering size => simp [saysRejected, line_ordered, isRejection, List.isPrefixOf]
  | executing action => simp [saysRejected, line_executing, isRejection, List.isPrefixOf]
  | attempting value => simp [saysRejected, line_attempting, isRejection, List.isPrefixOf]
  | rejected refused message => simp [saysRejected, line_rejected, isRejection]

theorem filter_registered? (records : List Record) :
    records.filter (·.registered?.isSome) = (records.filterMap registered?).map Entry.record := by
  induction records with
  | nil => rfl
  | cons record rest ih =>
    cases record with
    | registered name d =>
      have hentry : registered? (registered name d) = some ⟨name, d⟩ := rfl
      rw [List.filter_cons_of_pos rfl, List.filterMap_cons_some hentry, List.map_cons, ih]
      rfl
    | _ => rw [List.filter_cons_of_neg Bool.false_ne_true, List.filterMap_cons_none rfl, ih]

/-- The registrations in a log, as lines. -/
theorem filter_saysRegistered (records : List Record) :
    (records.map line).filter saysRegistered =
      ((records.filterMap registered?).map Entry.record).map line := by
  rw [← filter_registered?, List.filter_map]
  congr 1
  exact List.filter_congr fun record _ => saysRegistered_line record

theorem countP_saysRejected (records : List Record) :
    (records.map line).countP saysRejected = records.countP isRejection := by
  rw [List.countP_map]
  exact List.countP_congr fun record _ => by rw [Function.comp_apply, saysRejected_line]

end Record

/-! ## Actions -/

/-- From one trail to another there are the records of an action: the action, the entry that it
added and what it found. The engine knows all that it holds. -/
structure Program.Records (action : Action) (before after : Trail Program)
    (added : Option Entry) (searches : List Finding) : Prop where
  entries_eq : after.state.registry.entries = added.toList ++ before.state.registry.entries
  known : after.state.engine.Known after.state.registry
  added_eq : ∀ e ∈ added, action.addition? = some e
  records_eq : after.records = before.records ++
    .executing action :: (added.toList.map Entry.record ++ searches.map Finding.record)
  searches_of : searches ≠ [] → ∃ name, action = .describe name

/-- The records of an action that adds nothing. -/
theorem Program.Records.of_same {action : Action} {before after : Trail Program}
    {searches : List Finding} (hsame : after.state.registry = before.state.registry)
    (hknown : after.state.engine.Known after.state.registry)
    (hrecords : after.records = before.records ++ .executing action :: searches.map Finding.record)
    (hsearches : searches ≠ [] → ∃ name, action = .describe name) :
    Records action before after none searches where
  entries_eq := congrArg Registry.entries hsame
  known := hknown
  added_eq := fun _ he => absurd he (Option.not_mem_none _)
  records_eq := hrecords
  searches_of := hsearches

theorem Registry.runOn_register {limit : DigitLimit} {name : String} {d : Definition}
    (hd : d.writable limit = true) (t : Trail Registry) :
    runOn t (register limit name (.ofDefinition d)) =
      match t.state.check name d with
      | .ok () => (.ok (), ⟨t.state.insert name d, t.records ++ [.registered name d]⟩)
      | .error fault => (.error (.type fault), t) := by
  have hoffer := Offer.definition?_ofDefinition d
  have hrecord : (Record.registered name d).writable limit = true := hd
  unfold register
  cases hcheck : t.state.check name d with
  | error fault => simp [accept, runOn_bind, hoffer, hcheck]
  | ok _ => simp [accept, runOn_bind, runOn_note, hoffer, hcheck, hrecord]

namespace Program

variable {limit : DigitLimit} {settings : Settings} {r : Registry} {running : Bool}

/-- A session on this registry, where what the engine holds is known. -/
structure Known (r : Registry) (p : Program) : Prop where
  registry_eq : p.registry = r
  engine : p.engine.Known r

variable (limit settings) in
/-- A description puts on record what the engine finds. -/
theorem tells_describe (h : WellFormed r.entries) (name : String) :
    Tells (Known r) (·.engine.findings)
      (do
        let report ← ask fun r => Engine.report limit r name
        if report.writable limit then return (some report, showReport settings report)
        else throw .numeralTooLong) := by
  refine Tells.bind (tells_state_bind fun p hp => ?_) fun report => ?_
  · rw [hp.registry_eq]
    exact tells_within (Engine.tells_report h name) (fun p hp => hp.engine)
      (fun p e hp he => ⟨hp.registry_eq, he⟩) fun p new e _ hfound => hfound
  · split_ifs
    · exact tells_pure _
    · exact tells_throw _

section

variable {action : Action} {e : Entry} {t : Trail Program}

/-- An action that adds an entry goes on record, and then the entry if it passes the check. -/
theorem runOn_addition (he : action.addition? = some e) (hwritable : action.writable limit = true) :
    runOn t (execute limit settings action) =
      match t.state.registry.check e.name e.definition with
      | .ok () =>
        (.ok (none, ""), ⟨{ t.state with registry := t.state.registry.insert e.name e.definition },
          t.records ++ [.executing action] ++ [e.record]⟩)
      | .error fault => (.error (.type fault), ⟨t.state, t.records ++ [.executing action]⟩) := by
  have hd : e.definition.writable limit = true := by
    rwa [← Action.writable_of_addition he]
  have hnote : (Record.executing action).writable limit = true := hwritable
  rw [execute_of_addition he, runOn_bind, runOn_note, if_pos hnote]
  unfold add onRegistry
  simp only [runOn_bind, runOn_within, Registry.runOn_register hd, runOn_pure]
  cases t.state.registry.check e.name e.definition with
  | error fault => rfl
  | ok _ => rfl

theorem records_addition (h : WellFormed r.entries) (ht : t.state.At limit r running)
    (hknown : t.state.engine.Known r) (he : action.addition? = some e)
    (hwritable : action.writable limit = true) :
    ∃ added, Records action t (runOn t (execute limit settings action)).2 added [] := by
  obtain ⟨rfl, _, hengine⟩ := ht
  rw [runOn_addition he hwritable]
  cases hcheck : t.state.registry.check e.name e.definition with
  | error fault =>
    exact ⟨none, .of_same rfl hknown rfl fun hne => absurd rfl hne⟩
  | ok _ =>
    refine ⟨some e, rfl, ?_, fun _ hadded => Option.some.inj hadded ▸ he,
      List.append_assoc _ _ _, fun hne => absurd rfl hne⟩
    have hnew := ((Registry.check_eq_ok_iff t.state.registry e.name e.definition).mp hcheck).1
    exact hknown.grown hengine h fun n d hd => definitionIn?_cons_of_some hnew hd

variable (settings action) in
/-- An action leaves its records, or its numbers are too long and it leaves nothing. -/
theorem records_execute (h : WellFormed r.entries) (ht : t.state.At limit r running)
    (hknown : t.state.engine.Known r) :
    runOn t (execute limit settings action) = (.error .numeralTooLong, t) ∨
      ∃ added searches,
        Records action t (runOn t (execute limit settings action)).2 added searches := by
  cases hwritable : action.writable limit with
  | false =>
    left
    unfold execute
    rw [runOn_bind, runOn_note, if_neg]
    exact Bool.eq_false_iff.mp hwritable
  | true =>
    right
    cases he : action.addition? with
    | some e =>
      obtain ⟨added, hrecords⟩ := records_addition h ht hknown he hwritable
      exact ⟨added, [], hrecords⟩
    | none =>
      have hnote : (Record.executing action).writable limit = true := hwritable
      unfold execute
      rw [runOn_bind, runOn_note, if_pos hnote]
      cases action with
      | exit =>
        have hafter : t.state.engine.Known t.state.registry := ht.registry_eq ▸ hknown
        exact ⟨none, [], .of_same rfl hafter rfl fun hne => absurd rfl hne⟩
      | describe name =>
        obtain ⟨⟨new, hadds⟩, hregistry, hafter⟩ := tells_describe limit settings h
          name ⟨t.state, t.records ++ [.executing (.describe name)]⟩ ⟨ht.registry_eq, hknown⟩
        exact ⟨none, new, .of_same (hregistry.trans ht.registry_eq.symm) (hregistry.symm ▸ hafter)
          (hadds.records_eq.trans (List.append_assoc _ _ _)) fun _ => ⟨name, rfl⟩⟩
      | addAtomic name size alignment => cases he
      | addStruct name members => cases he
      | addUnion name variants => cases he

end

/-! ## Lines -/

theorem turn_eq {α : Type} (p : Program) (step : Logged Program (α × String)) :
    p.turn step = ⟨(runFrom p step).1.map (·.1), printedWith (runFrom p step).1,
      (runFrom p step).2.records, (runFrom p step).2.state⟩ := by
  unfold turn
  rcases runFrom p step with ⟨_ | ⟨_, _⟩, _⟩ <;> rfl

theorem runOn_reject (t : Trail Program) (line message printed : String) :
    runOn t (reject limit line message printed) =
      (.ok (false, printed), ⟨t.state, t.records ++ [rejection line message]⟩) := rfl

/-- An action that fails has added nothing. -/
theorem Records.eq_none {action : Action} {before after : Trail Program} {added : Option Entry}
    {searches : List Finding} (h : Records action before after added searches)
    (hsame : after.state.registry = before.state.registry) : added = none := by
  have hentries := h.entries_eq
  rw [hsame, List.self_eq_append_left] at hentries
  exact Option.toList_eq_nil_iff.mp hentries

theorem runOn_runLine_of_error {line message : String} {fault : CommandFault}
    (hparse : Action.parse line = .error fault) (hmessage : fault.message? = some message)
    (t : Trail Program) : runOn t (runLine limit settings line) =
      (.ok (false, showCommandFault settings message),
        ⟨t.state, t.records ++ [rejection line message]⟩) := by
  unfold runLine
  rw [runOn_tryCatch, runOn_bind]
  simp only [executeLine, hparse, runOn_throw, answerFailure, hmessage, runOn_reject]

theorem runOn_runLine {line : String} {action : Action} (hparse : Action.parse line = .ok action)
    (t : Trail Program) : runOn t (runLine limit settings line) =
      match runOn t (execute limit settings action) with
      | (.ok (_, printed), after) => (.ok (true, printed), after)
      | (.error failure, after) => runOn after (answerFailure limit settings line failure) := by
  unfold runLine
  rw [runOn_tryCatch, runOn_bind]
  simp only [executeLine, hparse]
  rcases runOn t (execute limit settings action) with ⟨_ | ⟨_, _⟩, _⟩ <;> rfl

/-- A line with an action leaves the records of the action, and its refusal if it is refused. -/
theorem logs_action (h : WellFormed r.entries) {p : Program} (hp : p.At limit r running)
    (hknown : p.engine.Known r) {line : String} {action : Action}
    (hparse : Action.parse line = .ok action) :
    let given := runFrom p (runLine limit settings line)
    p.Logs limit settings line (given.1.map (·.1)) given.2.records given.2.state.registry ∧
      given.2.state.engine.Known given.2.state.registry := by
  intro given
  have hgiven : given = _ := runOn_runLine hparse ⟨p, []⟩
  obtain ⟨answer, after, hexecutes, hleads⟩ := leads_execute limit settings h action
  obtain ⟨hanswer, hat⟩ := hleads running ⟨p, []⟩ hp
  have hwritten := records_execute settings action (t := ⟨p, []⟩) h hp hknown
  rcases hrun : runOn ⟨p, []⟩ (execute limit settings action) with ⟨executed, behind⟩
  rw [hrun] at hanswer hat hwritten hgiven
  obtain rfl : executed = answer := hanswer
  -- An action with a number that is too long is not put on record, and nothing follows.
  rcases hwritten with hnone | ⟨added, searches, hrecords⟩
  · obtain ⟨rfl, rfl⟩ : executed = .error .numeralTooLong ∧ behind = ⟨p, []⟩ := by
      simpa using hnone
    have hprefix : [] <+: Record.executing action :: ([] : List Finding).map Finding.record :=
      List.nil_prefix
    rw [hgiven]
    exact ⟨.broken hparse hprefix, hp.registry_eq.symm ▸ hknown⟩
  · have hwhole := hrecords.records_eq
    rw [hgiven]
    cases executed with
    | ok shown =>
      refine ⟨?_, hrecords.known⟩
      change p.Logs limit settings line (.ok true) behind.records behind.state.registry
      rw [hwhole]
      exact .performed hparse hrecords.added_eq hrecords.entries_eq hrecords.searches_of
    | error failure =>
      obtain ⟨rfl, _, hfailure⟩ := hexecutes.of_error
      have hsame : behind.state.registry = p.registry :=
        hat.registry_eq.trans hp.registry_eq.symm
      -- The registry is as before, so a failed action has left no registration.
      obtain rfl := hrecords.eq_none hsame
      rcases hfailure with rfl | ⟨fault, rfl, hreads⟩
      · refine ⟨?_, hrecords.known⟩
        change p.Logs limit settings line (.error .numeralTooLong) behind.records
          behind.state.registry
        rw [hsame, hwhole]
        exact .broken hparse List.prefix_rfl
      · refine ⟨?_, hrecords.known⟩
        have hfails : (p.turn (execute limit settings action)).answer = .error (.type fault) := by
          rw [turn_eq, runFrom, hrun]
          rfl
        change p.Logs limit settings line (.ok false)
          (behind.records ++ [rejection line fault.message]) behind.state.registry
        rw [hsame, hwhole]
        exact .refused hparse hfails hreads hrecords.searches_of

variable (settings) in
/-- A line leaves its records, and the engine knows all that it holds. -/
theorem logs_turn (h : WellFormed r.entries) {p : Program} (hp : p.At limit r running)
    (hknown : p.engine.Known r) (line : String) :
    let t := p.turn (runLine limit settings line)
    p.Logs limit settings line t.answer t.records t.program.registry ∧
      t.program.engine.Known t.program.registry := by
  intro t
  have ht : t = _ := turn_eq p (runLine limit settings line)
  rw [ht]
  cases hparse : Action.parse line with
  | error fault =>
    obtain ⟨message, hmessage⟩ := Action.message_of_parse hparse
    unfold runFrom
    rw [runOn_runLine_of_error hparse hmessage]
    exact ⟨.misread hparse (Action.reads_of_parse hparse hmessage),
      hp.registry_eq.symm ▸ hknown⟩
  | ok action => exact logs_action h hp hknown hparse

/-! ## Sessions -/

/-- The records of some lines. -/
def recordsOf (turns : List (Turn Bool)) : List Record := turns.flatMap (·.records)

theorem recordsOf_cons (p : Program) (line : String) (rest : List String) :
    recordsOf (p.turns limit settings (line :: rest)) =
      (p.turn (runLine limit settings line)).records ++
        recordsOf ((p.turn (runLine limit settings line)).program.turns limit settings rest) := rfl

variable (settings) in
/-- The registrations in the records of some lines are what the lines have added, and the
rejections are the lines that were refused. -/
theorem logs_turns (h : WellFormed r.entries) {p : Program} (hp : p.At limit r running)
    (hknown : p.engine.Known r) (lines : List String) :
    let turns := p.turns limit settings lines
    let after := p.afterLines limit settings lines
    after.registry.entries =
        ((recordsOf turns).filterMap Record.registered?).reverse ++ p.registry.entries ∧
      (recordsOf turns).countP Record.isRejection = turns.countP (·.answer = .ok false) ∧
      after.engine.Known after.registry := by
  induction lines generalizing r running p with
  | nil => exact ⟨rfl, rfl, hp.registry_eq.symm ▸ hknown⟩
  | cons line rest ih =>
    obtain ⟨after, hwell, hafter⟩ := at_turn limit settings h hp line
    obtain ⟨hlogs, hfound⟩ := logs_turn settings h hp hknown line
    obtain ⟨hentries, hcount, hend⟩ := ih hwell hafter (hafter.registry_eq ▸ hfound)
    refine ⟨?_, ?_, hend⟩
    · rw [recordsOf_cons, List.filterMap_append, List.reverse_append, List.append_assoc]
      rw [← hlogs.entries_eq]
      exact hentries
    · rw [recordsOf_cons, List.countP_append, hcount, hlogs.countP_isRejection, turns,
        List.countP_cons, Nat.add_comm]
      simp only [decide_eq_true_eq]

end Program

open Program

/-! ## The law -/

/-- The log is a trail of the session. A line leaves exactly its records in it: a line that is no
command its rejection, and any other line its action, the entry that it added, what a description
found, and its rejection if it was refused. Each record is a line of the log that reads as it
should. So the lines on registrations are, in the order of the names, one for each name with its
definition, and the lines on rejections are as many as the refused lines. -/
theorem the_log_tells_what_a_session_did (limit : DigitLimit) (settings : Settings)
    (lines : List String) :
    let p := (start .empty).afterLines limit settings lines
    let turns := (start .empty).turns limit settings lines
    let log := turns.flatMap fun t => t.records.map Record.line
    (∀ line, let t := p.turn (runLine limit settings line)
      p.Logs limit settings line t.answer t.records t.program.registry ∧
        ∀ record ∈ t.records, record.Reads record.line) ∧
    List.Forall₂ (fun name said => ∃ d text, p.registry.lookup? name = some d ∧ d.Reads text ∧
        said = "[DEBUG] Registered type " ++ (name ++ " = " ++ text))
      p.registry.names (log.filter saysRegistered) ∧
    log.countP saysRejected = turns.countP (·.answer = .ok false) := by
  intro p turns log
  have hstart : (start .empty).At limit .empty true := at_start .empty
  have hempty : WellFormed Registry.empty.entries := trivial
  obtain ⟨r, running, h, hp, _⟩ := at_afterLines limit settings hempty hstart lines
  obtain ⟨hentries, hcount, hknown⟩ :=
    logs_turns settings hempty hstart Engine.known_empty lines
  have hwell : WellFormed p.registry.entries := hp.registry_eq.symm ▸ h
  have hlog : log = (recordsOf turns).map Record.line := List.map_flatMap.symm
  have hregistered : (recordsOf turns).filterMap Record.registered? =
      p.registry.entries.reverse := by
    rw [hentries]
    exact (List.reverse_eq_iff.mp (List.append_nil _).symm)
  refine ⟨fun line => ⟨(logs_turn settings h hp (hp.registry_eq ▸ hknown) line).1,
    fun record _ => record.reads_line⟩, ?_, ?_⟩
  · rw [hlog, Record.filter_saysRegistered, hregistered, Registry.names, List.map_map,
      List.forall₂_map_left_iff, List.forall₂_map_right_iff, List.forall₂_same]
    intro e he
    have hlookup : p.registry.lookup? e.name = some e.definition :=
      (hwell.definitionIn?_eq_some_iff _ _).mpr (List.mem_reverse.mp he)
    exact ⟨e.definition, _, hlookup, e.definition.reads_text, Record.line_registered _ _⟩
  · rw [hlog, Record.countP_saysRejected, hcount]

/-- A number is added, a struct of a ghost is refused, and a blank line is no command. -/
example :
    (recordsOf ((start .empty).turns .standard plainScreen
      ["atomic int 4 4", "struct loop ghost", " "])).map Record.line =
      ["[DEBUG] Executing AddAtomic(name='int', representation=4, alignment=4)",
        "[DEBUG] Registered type int = Atomic[4, 4]",
        "[DEBUG] Executing AddStruct(name='loop', members=('ghost',))",
        "[INFO] Rejected 'struct loop ghost': " ++
          "[TYPE_DOES_NOT_EXIST] The symbol does not exist: 'ghost'",
        "[INFO] Rejected '': [NOT_ENOUGH_ARGS] Not enough arguments"] := by
  decide +kernel

end DataLayout
