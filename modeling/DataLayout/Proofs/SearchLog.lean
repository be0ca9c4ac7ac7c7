-- The law of the log of an engine. Whatever an engine is asked, its log is the list of what it
-- has found: each struct once, behind the structs inside of it, and as it is answered later.
import DataLayout.Proofs.Findings
import DataLayout.Proofs.Workshop

namespace DataLayout

open Logged Text

/-! ## Engines -/

namespace Logged

variable {σ τ α β : Type} {inv : σ → Prop} {found : σ → List Finding}

/-- A step puts all that it finds on record, and nothing else. -/
def Tells (inv : σ → Prop) (found : σ → List Finding) (step : Logged σ α) : Prop :=
  ∀ t : Trail σ, inv t.state →
    (∃ new, Adds found (fun _ => True) t (runOn t step).2 new) ∧ inv (runOn t step).2.state

theorem tells_pure (a : α) : Tells inv found (pure a) :=
  fun t ht => ⟨⟨[], Adds.refl found _ t⟩, ht⟩

theorem tells_throw (failure : Failure) : Tells inv found (throw failure : Logged σ α) :=
  fun t ht => ⟨⟨[], Adds.refl found _ t⟩, ht⟩

theorem tells_lift (answer : Except Failure α) : Tells inv found (answer : Logged σ α) := by
  intro t ht
  rw [runOn_lift]
  exact ⟨⟨[], Adds.refl found _ t⟩, ht⟩

theorem Tells.bind {step : Logged σ α} {next : α → Logged σ β} (h : Tells inv found step)
    (hnext : ∀ a, Tells inv found (next a)) : Tells inv found (step >>= next) := by
  intro t ht
  obtain ⟨⟨new, hadds⟩, hinv⟩ := h t ht
  rw [runOn_bind]
  rcases hrun : runOn t step with ⟨answer, mid⟩
  rw [hrun] at hadds hinv
  cases answer with
  | error failure => exact ⟨⟨new, hadds⟩, hinv⟩
  | ok a =>
    obtain ⟨⟨newer, hadds'⟩, hinv'⟩ := hnext a mid hinv
    exact ⟨⟨new ++ newer, hadds.trans hadds'⟩, hinv'⟩

theorem tells_state_bind {next : σ → Logged σ α} (h : ∀ s, inv s → Tells inv found (next s)) :
    Tells inv found (state >>= next) := by
  intro t ht
  rw [runOn_state_bind]
  exact h t.state ht t ht

theorem tells_within {part : σ → τ} {put : τ → σ → σ} {inner : τ → Prop}
    {foundIn : τ → List Finding} {step : Logged τ α} (h : Tells inner foundIn step)
    (hpart : ∀ s, inv s → inner (part s))
    (hput : ∀ s inside, inv s → inner inside → inv (put inside s))
    (hfound : ∀ s new inside, inv s → foundIn inside = new ++ foundIn (part s) →
      found (put inside s) = new ++ found s) :
    Tells inv found (within part put step) := by
  intro t ht
  obtain ⟨⟨new, hadds⟩, hinv⟩ := h ⟨part t.state, t.records⟩ (hpart _ ht)
  rw [runOn_within]
  exact ⟨⟨new, hfound _ _ _ ht hadds.found_eq, hadds.records_eq, fun _ _ => trivial⟩,
    hput _ _ ht hinv⟩

end Logged

/-- What the memories of an engine hold is known. -/
def Engine.Known (r : Registry) (e : Engine) : Prop := ∀ p, (e.memory p).Known r p

/-- What an engine has found, the newest first. -/
def Engine.findings (e : Engine) : List Finding := e.optimized.searches

namespace Engine

variable {limit : DigitLimit} {r : Registry}

theorem known_empty : Engine.empty.Known r := by
  intro p
  cases p <;> exact Memory.known_empty

theorem findings_putMemory {p : Packing} (hp : p ≠ .optimized) (m : Memory) (e : Engine) :
    (putMemory p m e).findings = e.findings := by
  cases p with
  | optimized => exact absurd rfl hp
  | unpacked => rfl
  | packed => rfl

/-- A strategy tells what it finds, and only the optimized one finds anything. -/
theorem tells_strategy {α : Type} {p : Packing} {scope : List String → Prop}
    {step : Strategy.Work α} (h : Traces (Memory.Known r p) (·.searches) scope step)
    (hscope : ∀ members, scope members → p = .optimized) :
    Tells (Engine.Known r) findings (strategy p step) := by
  intro t ht
  obtain ⟨new, hadds, hinv, _⟩ := h ⟨t.state.memory p, t.records⟩ (ht p)
  unfold strategy
  rw [runOn_within]
  refine ⟨⟨new, ?_, hadds.records_eq, fun _ _ => trivial⟩, fun q => ?_⟩
  · by_cases hp : p = .optimized
    · subst hp
      exact hadds.found_eq
    · have hnone : new = [] := List.eq_nil_iff_forall_not_mem.mpr fun f hf =>
        hp (hscope _ (hadds.within f hf))
      rw [hnone]
      exact findings_putMemory hp _ _
  · rw [memory_putMemory]
    split_ifs with hq
    · exact hq ▸ hinv
    · exact ht q

section

variable (hwell : WellFormed r.entries)

include hwell

theorem tells_extent (p : Packing) (name : String) :
    Tells (Engine.Known r) findings (extent limit r p name) :=
  tells_strategy (Strategy.traces_extent hwell name) fun _ hscope => hscope.1

theorem tells_size (p : Packing) (d : Definition) :
    Tells (Engine.Known r) findings (size limit r p d) :=
  tells_strategy (Strategy.traces_size hwell d) fun _ hscope => hscope.1

theorem tells_alignment (p : Packing) (d : Definition) :
    Tells (Engine.Known r) findings (alignment limit r p d) :=
  tells_strategy (Strategy.traces_alignment hwell d) fun _ hscope => hscope.1

theorem tells_search (names : List String) :
    Tells (Engine.Known r) findings (search limit r names) :=
  tells_strategy (Strategy.traces_ordering hwell names) fun _ _ => rfl

theorem tells_packedSizes (p : Packing) (total : Int) (names : List String) :
    Tells (Engine.Known r) findings (packedSizes limit r p total names) := by
  induction names with
  | nil => exact tells_pure []
  | cons n rest ih =>
    refine (tells_extent hwell p n).bind fun e => ?_
    split_ifs
    · exact (tells_extent hwell .packed n).bind fun packed => ih.bind fun others => tells_pure _
    · exact ih

theorem tells_loss (p : Packing) (d : Definition) :
    Tells (Engine.Known r) findings (loss limit r p d) := by
  refine (tells_size hwell p d).bind fun total => ?_
  cases d with
  | atomic size alignment =>
    exact (tells_size hwell .packed _).bind fun packed => tells_pure _
  | struct names => exact (tells_size hwell .packed _).bind fun packed => tells_pure _
  | union names =>
    refine (tells_packedSizes hwell p total names).bind fun sizes => ?_
    exact (tells_lift _).bind fun best => tells_pure _

theorem tells_layout (p : Packing) (d : Definition) :
    Tells (Engine.Known r) findings (layout limit r p d) :=
  (tells_size hwell p d).bind fun _ => (tells_alignment hwell p d).bind fun _ =>
    (tells_loss hwell p d).bind fun _ => tells_pure _

theorem tells_ordering (name : String) :
    Tells (Engine.Known r) findings (ordering limit r name) := by
  refine (tells_lift _).bind fun d => ?_
  have hrefuse : Tells (Engine.Known r) findings
      (if d.writable limit then throw (.notAStruct name d.text) else throw .numeralTooLong :
        Logged Engine (List String × Int)) := by
    split_ifs <;> exact tells_throw _
  cases d with
  | atomic size alignment => exact hrefuse
  | struct names => exact tells_search hwell names
  | union names => exact hrefuse

theorem tells_report (name : String) :
    Tells (Engine.Known r) findings (report limit r name) := by
  refine (tells_lift _).bind fun d => ?_
  refine (tells_layout hwell .unpacked d).bind fun unpacked => ?_
  refine (tells_layout hwell .packed d).bind fun packed => ?_
  refine (tells_layout hwell .optimized d).bind fun optimized => ?_
  cases d with
  | atomic size alignment => exact tells_pure _
  | struct names => exact (tells_ordering hwell name).bind fun found => tells_pure _
  | union names => exact tells_pure _

end

/-! ### Growth -/

/-- What an engine knows stays known when the registry grows. -/
theorem Known.grown {e : Engine} (h : e.Known r) (hsound : e.Sound limit r)
    (hwell : WellFormed r.entries) {grown : Registry}
    (hgrown : ∀ n d, r.lookup? n = some d → grown.lookup? n = some d) : e.Known grown :=
  fun p => (h p).grown (hsound p) hwell hgrown

end Engine

/-! ## The workbench -/

/-- A workbench on this registry, where what the engine in use holds is known. -/
structure Workbench.Known (r : Registry) (w : Workbench) : Prop where
  registry_eq : w.registry = r
  engine : w.engine.Known r

namespace Workbench

variable {limit : DigitLimit} {r : Registry}

/-- What the engine in use has found. -/
def findings (w : Workbench) : List Finding := w.engine.findings

theorem tells_ask {α : Type} {question : Registry → Logged Engine α}
    (h : Tells (Engine.Known r) Engine.findings (question r)) :
    Tells (Workbench.Known r) findings (ask question) := by
  refine tells_state_bind fun w hw => ?_
  rw [hw.registry_eq]
  exact tells_within h (fun w hw => hw.engine) (fun w e hw he => ⟨hw.registry_eq, he⟩)
    fun w new e _ hfound => hfound

section

variable {σ : Type} {inv : σ → Prop} {found : σ → List Finding}
  {measure : Definition → Logged σ Int}

theorem tells_sizeWith (h : ∀ d, Tells inv found (measure d)) (offer : Offer) :
    Tells inv found (sizeWith limit measure offer) := by
  cases offer with
  | atomic size alignment => exact tells_pure size
  | _ => exact (tells_lift _).bind fun d => (h d).bind fun n => tells_pure _

theorem tells_alignmentWith (h : ∀ d, Tells inv found (measure d)) (offer : Offer) :
    Tells inv found (alignmentWith limit measure offer) := by
  cases offer with
  | atomic size alignment => exact tells_pure alignment
  | _ => exact (tells_lift _).bind fun d => (h d).bind fun n => tells_pure _

theorem tells_lossWith (h : ∀ d, Tells inv found (measure d)) (offer : Offer) :
    Tells inv found (lossWith limit measure offer) := by
  cases offer with
  | atomic size alignment => exact tells_lift _
  | _ => exact (tells_lift _).bind fun d => (h d).bind fun n => tells_pure _

end

variable (limit) in
/-- Every question puts on record what the engine in use finds. -/
theorem tells_question (h : WellFormed r.entries) (q : Question) :
    Tells (Workbench.Known r) findings (q.ask limit) := by
  have hsize : ∀ p offer, Tells (Workbench.Known r) findings (sizeOf limit p offer) :=
    fun p offer => tells_ask (tells_sizeWith (Engine.tells_size h p) offer)
  have halignment : ∀ p offer, Tells (Workbench.Known r) findings (alignmentOf limit p offer) :=
    fun p offer => tells_ask (tells_alignmentWith (Engine.tells_alignment h p) offer)
  have hloss : ∀ p offer, Tells (Workbench.Known r) findings (lossOf limit p offer) :=
    fun p offer => tells_ask (tells_lossWith (Engine.tells_loss h p) offer)
  cases q with
  | size p offer => exact hsize p offer
  | alignment p offer => exact halignment p offer
  | loss p offer => exact hloss p offer
  | layout p offer =>
    exact (hsize p offer).bind fun size => (halignment p offer).bind fun alignment =>
      (hloss p offer).bind fun loss => tells_pure _
  | member p name => exact tells_ask (Engine.tells_extent h p name)
  | search members => exact tells_ask (Engine.tells_search h members)
  | ordering name => exact tells_ask (Engine.tells_ordering h name)
  | report name => exact tells_ask (Engine.tells_report h name)

end Workbench

/-! ## The workshop -/

/-- What the memories of all engines hold is known. -/
def Workshop.Known (w : Workshop) : Prop := ∀ e ∈ w.engines, e.Known w.registry

namespace Workshop

variable {limit : DigitLimit} {w : Workshop} {i : Nat}

/-- What one of the engines has found. An engine that was not made has found nothing. -/
def findings (i : Nat) (w : Workshop) : List Finding :=
  match w.engines[i]? with
  | some e => e.findings
  | none => []

theorem findings_of_getElem? {e : Engine} (h : w.engines[i]? = some e) :
    w.findings i = e.findings := by
  unfold findings
  rw [h]

theorem exists_of_mem_findings {f : Finding} (h : f ∈ w.findings i) :
    ∃ e, w.engines[i]? = some e ∧ f ∈ e.findings := by
  unfold findings at h
  cases he : w.engines[i]? with
  | none => rw [he] at h; cases h
  | some e => rw [he] at h; exact ⟨e, rfl, h⟩

/-- In a step, an engine writes down what it newly finds, and nothing else. -/
def Tells (limit : DigitLimit) (w : Workshop) (i : Nat) (s : Step) : Prop :=
  ∃ new : List Finding, (w.after limit s).findings i = new.reverse ++ w.findings i ∧
    w.recorded limit i s = new.map Finding.record

theorem tells_of_same {s : Step} (hfound : (w.after limit s).findings i = w.findings i)
    (hrecorded : w.recorded limit i s = []) : w.Tells limit i s := by
  refine ⟨[], ?_, hrecorded⟩
  rw [hfound, List.reverse_nil, List.nil_append]

/-- A new engine has found nothing, as it had before it was made. -/
theorem findings_newEngine : (w.after limit .newEngine).findings i = w.findings i := by
  unfold findings
  rcases lt_trichotomy i w.engines.length with hold | rfl | hnone
  · rw [Workshop.after, List.getElem?_append_left hold]
  · rw [Workshop.after, List.getElem?_concat_length, List.getElem?_eq_none le_rfl]
    rfl
  · rw [Workshop.after, List.getElem?_eq_none hnone.le]
    rw [List.getElem?_eq_none (by rw [List.length_append]; exact hnone)]

theorem engines_ask {j : Nat} {e : Engine} (hj : w.engines[j]? = some e) (q : Question) :
    (w.after limit (.ask j q)).engines =
      w.engines.set j (runFrom (w.bench e) (q.ask limit)).2.state.engine := by
  simp only [Workshop.after, hj]

theorem findings_ask {e : Engine} (hi : w.engines[i]? = some e) (q : Question) :
    (w.after limit (.ask i q)).findings i =
      (runFrom (w.bench e) (q.ask limit)).2.state.findings := by
  have hlt : i < w.engines.length := (List.getElem?_eq_some_iff.mp hi).1
  have hset := List.getElem?_set_self hlt
    (a := (runFrom (w.bench e) (q.ask limit)).2.state.engine)
  rw [← engines_ask hi] at hset
  exact findings_of_getElem? hset

theorem findings_ask_of_ne {j : Nat} (h : j ≠ i) (q : Question) :
    (w.after limit (.ask j q)).findings i = w.findings i := by
  cases hj : w.engines[j]? with
  | none => simp only [Workshop.after, hj]
  | some e => simp only [findings, engines_ask hj, List.getElem?_set_ne h]

/-- A question to an engine keeps its findings known, and is told. -/
theorem Known.ask (hsound : w.Sound limit) (h : w.Known) {j : Nat} {e : Engine}
    (hj : w.engines[j]? = some e) (q : Question) :
    (w.after limit (.ask j q)).Known ∧ w.Tells limit i (.ask j q) := by
  obtain ⟨⟨new, hadds⟩, hafter⟩ := Workbench.tells_question limit hsound.wellFormed q
    ⟨w.bench e, []⟩ ⟨rfl, h e (List.mem_of_getElem? hj)⟩
  constructor
  · intro e' he'
    rw [hsound.registry_after]
    rw [engines_ask hj] at he'
    rcases List.mem_or_eq_of_mem_set he' with hold | rfl
    · exact h e' hold
    · exact hafter.engine
  -- The engine that was asked has the new findings, and all others have those of before.
  · by_cases hi : j = i
    · subst hi
      refine ⟨new, ?_, ?_⟩
      · rw [findings_ask hj, findings_of_getElem? hj]
        exact hadds.found_eq
      · simp only [recorded, hj, if_true]
        exact hadds.records_eq
    · exact tells_of_same (findings_ask_of_ne hi q) (by simp only [recorded, if_neg hi])

/-- One step keeps all findings known, and is told. -/
theorem Known.after (hsound : w.Sound limit) (h : w.Known) (s : Step) :
    (w.after limit s).Known ∧ w.Tells limit i s := by
  cases s with
  | register call =>
    refine ⟨fun e he => ?_, tells_of_same rfl rfl⟩
    exact (h e he).grown (hsound.engines e he) hsound.wellFormed fun n d hd =>
      Registry.lookup?_call limit hd call
  | newEngine =>
    refine ⟨fun e he => ?_, tells_of_same findings_newEngine rfl⟩
    rcases List.mem_append.mp he with hold | hnew
    · exact h e hold
    · rw [List.mem_singleton.mp hnew]
      exact Engine.known_empty
  | ask j q =>
    cases hj : w.engines[j]? with
    | some e => exact h.ask hsound hj q
    | none =>
      have hsame : w.after limit (.ask j q) = w := by simp only [Workshop.after, hj]
      refine ⟨hsame.symm ▸ h, tells_of_same (by rw [hsame]) ?_⟩
      simp only [recorded, hj, ite_self]
  | describe name =>
    have hregistry := hsound.registry_after (.describe name)
    refine ⟨fun e he => ?_, tells_of_same rfl rfl⟩
    rw [hregistry]
    exact h e he

/-! ### Runs -/

/-- Along a run, an engine writes down what it newly finds. -/
theorem Known.foldl (hsound : w.Sound limit) (h : w.Known) (steps : List Step) :
    (steps.foldl (Workshop.after limit) w).Known ∧ ∃ new : List Finding,
      (steps.foldl (Workshop.after limit) w).findings i = new.reverse ++ w.findings i ∧
        logFrom limit i w steps = new.map Finding.record := by
  induction steps generalizing w with
  | nil => exact ⟨h, [], rfl, rfl⟩
  | cons s rest ih =>
    obtain ⟨hafter, new, hfound, hrecorded⟩ := h.after hsound s (i := i)
    obtain ⟨hend, newer, hfound', hrest⟩ := ih (hsound.after s) hafter
    refine ⟨hend, new ++ newer, ?_, ?_⟩
    · rw [List.foldl_cons, hfound', hfound, List.reverse_append, List.append_assoc]
    · rw [logFrom, hrecorded, hrest, List.map_append]

theorem sound_empty (limit : DigitLimit) : empty.Sound limit := sound_new (r := .empty) trivial

theorem known_empty : empty.Known := fun _ he => by cases he

theorem known_run (limit : DigitLimit) (steps : List Step) : (run limit steps).Known :=
  (known_empty.foldl (sound_empty limit) (i := 0) steps).1

/-- The log of an engine is the list of its findings. -/
theorem log_eq (limit : DigitLimit) (i : Nat) (steps : List Step) :
    log limit i steps = ((run limit steps).findings i).reverse.map Finding.record := by
  obtain ⟨_, new, hfound, hlog⟩ := known_empty.foldl (sound_empty limit) (i := i) steps
  have hnone : empty.findings i = [] := rfl
  rw [run, hfound, hnone, List.append_nil, List.reverse_reverse]
  exact hlog

theorem logFrom_append (steps more : List Step) :
    logFrom limit i w (steps ++ more) =
      logFrom limit i w steps ++ logFrom limit i (steps.foldl (after limit) w) more := by
  induction steps generalizing w with
  | nil => rfl
  | cons s rest ih => rw [List.cons_append, logFrom, ih, logFrom, List.append_assoc]; rfl

end Workshop

/-! ## Searches inside of searches -/

namespace Strategy

/-- A level of the recursion by name, with an alarm at every name that is registered as the
struct. -/
def guarded (limit : DigitLimit) (r : Registry) (members : List String)
    (alarm inner : String → Work Extent) (name : String) : Work Extent :=
  if r.lookup? name = some (.struct members) then alarm name
  else level limit (some .optimized) r inner name

variable {limit : DigitLimit} {r : Registry} {members : List String}

/-- Below a name that does not lead to the struct there is no alarm. -/
theorem gives_guarded (h : WellFormed r.entries) (alarm bottom : String → Work Extent)
    {depth : Nat} {name : String} (hleads : ¬ r.LeadsTo name members)
    (hdepth : r.names.idxOf name < depth) :
    Gives (Memory.Sound limit .optimized r) ((guarded limit r members alarm)^[depth] bottom name)
      (r.extent limit .optimized name) := by
  induction depth generalizing name with
  | zero => omega
  | succ depth ih =>
    have hother : r.lookup? name ≠ some (.struct members) :=
      fun hname => hleads ⟨name, .refl, hname⟩
    rw [Function.iterate_succ_apply', guarded, if_neg hother]
    apply gives_level h
    intro n hrefers
    apply ih
    · rintro ⟨other, hpath, hother⟩
      exact hleads ⟨other, .head hrefers hpath, hother⟩
    · have := Registry.idxOf_lt_idxOf_of_refers h hrefers
      omega

/-- A search finds its ordering with no alarm at its own struct. -/
theorem gives_search_guarded (h : WellFormed r.entries) (alarm bottom : String → Work Extent)
    {depth : Nat} (hdepth : r.names.length < depth) :
    Gives (Memory.Sound limit .optimized r)
      (search limit ((guarded limit r members alarm)^[depth] bottom) members)
      (r.orderingOf limit members) := by
  apply gives_search
  intro n hn
  apply gives_guarded h
  · exact fun hleads => Registry.not_nests_self h members ⟨n, hn, hleads⟩
  · exact List.idxOf_le_length.trans_lt hdepth

end Strategy

/-! ## What a log tells -/

/-- The struct that was searched, if the record is one of a search. -/
def Record.searched? : Record → Option (List String)
  | .ordered members _ _ => some members
  | _ => none

theorem filterMap_searched? (findings : List Finding) :
    (findings.map Finding.record).filterMap Record.searched? = structsOf findings := by
  rw [List.filterMap_map, structsOf, ← List.filterMap_eq_map]
  rfl

theorem Finding.record_eq_iff {f : Finding} {members ordering : List String} {size : Int} :
    f.record = .ordered members ordering size ↔ f = (members, ordering, size) := by
  obtain ⟨members', ordering', size'⟩ := f
  simp [Finding.record]

namespace Workshop

variable {limit : DigitLimit} {w : Workshop} {i : Nat}

theorem Known.layered (h : w.Known) : Layered w.registry (w.findings i) := by
  unfold findings
  cases he : w.engines[i]? with
  | none => trivial
  | some e => exact (h e (List.mem_of_getElem? he) .optimized).layered

/-- What was found is answered from then on. -/
theorem Known.answer_of_mem (hsound : w.Sound limit) (h : w.Known) {members : List String}
    {found : List String × Int} (hfound : (members, found) ∈ w.findings i) :
    ∃ e, w.engines[i]? = some e ∧ w.answer limit e (.search members) = .ok found := by
  obtain ⟨e, he, hmem⟩ := exists_of_mem_findings hfound
  have hengine := List.mem_of_getElem? he
  refine ⟨e, he, ?_⟩
  rw [hsound.answer_eq (hsound.engines e hengine)]
  exact (hsound.engines e hengine .optimized).searches _ _
    ((h e hengine .optimized).layered.lookup_of_mem hmem)

/-- What is answered is found. -/
theorem mem_findings_of_answer {e : Engine} {members : List String} {found : List String × Int}
    (he : w.engines[i]? = some e) (h : w.answer limit e (.search members) = .ok found) :
    (members, found) ∈ (w.after limit (.ask i (.search members))).findings i := by
  rw [findings_ask he]
  have hrun : runOn ⟨e.optimized, []⟩ (Strategy.ordering limit w.registry members) =
      (.ok found, (runOn ⟨e.optimized, []⟩ (Strategy.ordering limit w.registry members)).2) :=
    Prod.ext h rfl
  exact Strategy.mem_of_search hrun

/-! ### Logs -/

section

variable (limit : DigitLimit) (i : Nat) (steps : List Step)

/-- No struct is searched twice. -/
theorem searched_nodup : ((log limit i steps).filterMap Record.searched?).Nodup := by
  rw [log_eq, filterMap_searched?, structsOf, List.map_reverse]
  exact List.nodup_reverse.mpr (known_run limit steps).layered.nodup

end

section

variable {steps : List Step} {members : List String}

/-- What is inside of a searched struct was searched before. -/
theorem searched_before {before after : List Record} {ordering : List String} {size : Int}
    (h : log limit i steps = before ++ .ordered members ordering size :: after)
    {inner : List String} (hnests : (run limit steps).registry.Nests members inner) :
    inner ∈ before.filterMap Record.searched? := by
  have hlayered := (known_run limit steps).layered (i := i)
  rw [log_eq] at h
  obtain ⟨older, rest, hfindings, rfl, hrest⟩ := List.map_eq_append_iff.mp h
  obtain ⟨f, newer, rfl, hf, _⟩ := List.map_eq_cons_iff.mp hrest
  obtain rfl := Finding.record_eq_iff.mp hf
  rw [List.reverse_eq_iff, List.reverse_append, List.reverse_cons, List.append_assoc,
    List.singleton_append] at hfindings
  -- The log runs the other way: what stands before the record are the findings behind it.
  rw [hfindings] at hlayered
  have hinner := hlayered.of_append.2.2.1 inner hnests
  rw [filterMap_searched?]
  rwa [structsOf, List.map_reverse, List.mem_reverse] at hinner

/-- What was written down is answered from then on. -/
theorem answer_of_mem_log {ordering : List String} {size : Int}
    (h : .ordered members ordering size ∈ log limit i steps) (more : List Step) :
    ∃ e, (run limit (steps ++ more)).engines[i]? = some e ∧
      (run limit (steps ++ more)).answer limit e (.search members) = .ok (ordering, size) := by
  have hlater : .ordered members ordering size ∈ log limit i (steps ++ more) := by
    rw [log, logFrom_append]
    exact List.mem_append_left _ h
  rw [log_eq] at hlater
  obtain ⟨f, hf, hrecord⟩ := List.mem_map.mp hlater
  obtain rfl := Finding.record_eq_iff.mp hrecord
  have hanswer := (known_run limit (steps ++ more)).answer_of_mem
    (sound_run limit (steps ++ more)) (List.mem_reverse.mp hf)
  exact hanswer

/-- A search that is answered is written down by then. -/
theorem mem_log_of_answer {e : Engine} {found : List String × Int}
    (he : (run limit steps).engines[i]? = some e)
    (h : (run limit steps).answer limit e (.search members) = .ok found) :
    .ordered members found.1 found.2 ∈ log limit i (steps ++ [.ask i (.search members)]) := by
  have hrun : run limit (steps ++ [.ask i (.search members)]) =
      (run limit steps).after limit (.ask i (.search members)) := by
    rw [run, List.foldl_append, List.foldl_cons, List.foldl_nil, ← run]
  have hfound := mem_findings_of_answer he h
  rw [← hrun] at hfound
  rw [log_eq]
  exact List.mem_map_of_mem (List.mem_reverse.mpr hfound)

end

end Workshop

/-! ## The law -/

/-- Whatever is registered, asked and refused, an engine searches each struct once. When it
writes down the ordering of a struct, it has written down those of all structs inside of it, and
every later search of the struct has this answer. Every search that is answered is written down.
No struct is inside of itself: an alarm at all names with the definition that is searched
changes no answer. -/
theorem an_engine_searches_each_struct_once (limit : DigitLimit) (steps : List Workshop.Step)
    (i : Nat) :
    let r := (Workshop.run limit steps).registry
    let log := Workshop.log limit i steps
    (log.filterMap Record.searched?).Nodup ∧
      (∀ before after members ordering size,
        log = before ++ .ordered members ordering size :: after →
          ∀ inner, r.Nests members inner → inner ∈ before.filterMap Record.searched?) ∧
      (∀ members ordering size, .ordered members ordering size ∈ log → ∀ more,
        let later := Workshop.run limit (steps ++ more)
        ∃ e, later.engines[i]? = some e ∧
          later.answer limit e (.search members) = .ok (ordering, size)) ∧
      (∀ members e found, (Workshop.run limit steps).engines[i]? = some e →
        (Workshop.run limit steps).answer limit e (.search members) = .ok found →
          .ordered members found.1 found.2 ∈
            Workshop.log limit i (steps ++ [.ask i (.search members)])) ∧
      ∀ members, ¬ r.Nests members members ∧ ∀ alarm bottom depth, r.names.length < depth →
        Gives (Memory.Sound limit .optimized r)
          (Strategy.search limit ((Strategy.guarded limit r members alarm)^[depth] bottom) members)
          (r.orderingOf limit members) := by
  intro r log
  have hwell : WellFormed r.entries := (Workshop.sound_run limit steps).wellFormed
  refine ⟨Workshop.searched_nodup limit i steps, ?_, ?_, ?_, ?_⟩
  · intro before after members ordering size hsplit inner hnests
    exact Workshop.searched_before hsplit hnests
  · intro members ordering size hmem more
    exact Workshop.answer_of_mem_log hmem more
  · intro members e found he hanswer
    exact Workshop.mem_log_of_answer he hanswer
  · intro members
    exact ⟨Registry.not_nests_self hwell members, fun alarm bottom depth hdepth =>
      Strategy.gives_search_guarded hwell alarm bottom hdepth⟩

/-- A pair under two names, and a pack that holds it through a union. A search breaks off at a
ghost when the pair is found already. -/
def packSteps : List Workshop.Step :=
  [.register ⟨"char", .atomic (.integer 1) (.integer 1)⟩,
    .register ⟨"int", .atomic (.integer 4) (.integer 4)⟩,
    .register ⟨"pair", .struct ["char", "int"]⟩, .register ⟨"twin", .struct ["char", "int"]⟩,
    .register ⟨"either", .union ["twin", "char"]⟩, .register ⟨"pack", .struct ["either", "pair"]⟩,
    .newEngine, .ask 0 (.search ["pair", "ghost"]), .ask 0 (.report "pack"),
    .ask 0 (.ordering "twin")]

/-- The pair is searched once and before the pack, and both keep their orderings. -/
theorem the_pair_is_searched_before_the_pack :
    Workshop.log .unlimited 0 packSteps =
        [.ordered ["char", "int"] ["int", "char"] 5,
          .ordered ["either", "pair"] ["either", "pair"] 13] ∧
      ["char", "int"] ∈
        [Record.ordered ["char", "int"] ["int", "char"] 5].filterMap Record.searched? ∧
      ∀ more, ∃ e, (Workshop.run .unlimited (packSteps ++ more)).engines[0]? = some e ∧
        (Workshop.run .unlimited (packSteps ++ more)).answer .unlimited e
          (.search ["char", "int"]) = .ok (["int", "char"], 5) := by
  have hlog : Workshop.log .unlimited 0 packSteps =
      [.ordered ["char", "int"] ["int", "char"] 5,
        .ordered ["either", "pair"] ["either", "pair"] 13] := by
    have hfindings : (Workshop.run .unlimited packSteps).findings 0 =
        [(["either", "pair"], ["either", "pair"], 13), (["char", "int"], ["int", "char"], 5)] := by
      decide +kernel
    rw [Workshop.log_eq, hfindings]
    rfl
  obtain ⟨_, hinner, hkept, _⟩ := an_engine_searches_each_struct_once .unlimited packSteps 0
  refine ⟨hlog, ?_, ?_⟩
  · apply hinner _ [] _ _ _ hlog
    exact ⟨"pair", by decide, "pair", .refl, by decide⟩
  · exact hkept _ _ _ (by rw [hlog]; exact List.mem_cons_self)

end DataLayout
