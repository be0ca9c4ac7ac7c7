-- The laws of the workshop. Whatever was registered and asked before, each engine answers a
-- question as a new engine would, and as the recursion over the registry does.
import DataLayout.Proofs.Memory
import DataLayout.Workshop

namespace DataLayout

open Logged Text

/-! ## The workbench -/

/-- Both engines of a workbench on this registry are sound. -/
structure Workbench.Sound (limit : DigitLimit) (r : Registry) (w : Workbench) : Prop where
  registry_eq : w.registry = r
  engine : w.engine.Sound limit r
  describer : ∀ e, w.describer = some e → e.Sound limit r

namespace Workbench

variable {limit : DigitLimit} {r : Registry}

theorem gives_ask {α : Type} {question : Registry → Logged Engine α} {answer : Except Failure α}
    (h : Gives (Engine.Sound limit r) (question r) answer) :
    Gives (Workbench.Sound limit r) (ask question) answer := by
  apply gives_state_bind
  intro w hw
  rw [hw.registry_eq]
  exact gives_within h (fun w hw => hw.engine) fun w e hw he => ⟨hw.registry_eq, he, hw.describer⟩

section

variable {σ : Type} {inv : σ → Prop} {measure : Definition → Logged σ Int}
  {answers : Definition → Except Failure Int}

theorem gives_sizeWith (h : ∀ d, Gives inv (measure d) (answers d)) (offer : Offer) :
    Gives inv (sizeWith limit measure offer) (sizeWith limit answers offer) := by
  cases offer with
  | atomic size alignment => exact gives_pure size
  | _ => exact gives_bind (gives_lift _) fun d _ => gives_bind (h d) fun n _ => gives_pure _

theorem gives_alignmentWith (h : ∀ d, Gives inv (measure d) (answers d)) (offer : Offer) :
    Gives inv (alignmentWith limit measure offer) (alignmentWith limit answers offer) := by
  cases offer with
  | atomic size alignment => exact gives_pure alignment
  | _ => exact gives_bind (gives_lift _) fun d _ => gives_bind (h d) fun n _ => gives_pure _

theorem gives_lossWith (h : ∀ d, Gives inv (measure d) (answers d)) (offer : Offer) :
    Gives inv (lossWith limit measure offer) (lossWith limit answers offer) := by
  cases offer with
  | atomic size alignment => exact gives_lift _
  | _ => exact gives_bind (gives_lift _) fun d _ => gives_bind (h d) fun n _ => gives_pure _

end

theorem gives_sizeOf (h : WellFormed r.entries) (p : Packing) (offer : Offer) :
    Gives (Workbench.Sound limit r) (sizeOf limit p offer)
      (sizeWith limit (r.sizeOf limit p) offer) :=
  gives_ask (gives_sizeWith (Engine.gives_size h p) offer)

theorem gives_alignmentOf (h : WellFormed r.entries) (p : Packing) (offer : Offer) :
    Gives (Workbench.Sound limit r) (alignmentOf limit p offer)
      (alignmentWith limit (r.alignmentOf limit p) offer) :=
  gives_ask (gives_alignmentWith (Engine.gives_alignment h p) offer)

theorem gives_lossOf (h : WellFormed r.entries) (p : Packing) (offer : Offer) :
    Gives (Workbench.Sound limit r) (lossOf limit p offer)
      (lossWith limit (r.lossOf limit p) offer) :=
  gives_ask (gives_lossWith (Engine.gives_loss h p) offer)

/-- Every question is answered as by the recursion, and keeps the workbench sound. -/
theorem gives_question (h : WellFormed r.entries) (q : Question) :
    Gives (Workbench.Sound limit r) (q.ask limit) (q.plain limit r) := by
  cases q with
  | size p offer => exact gives_sizeOf h p offer
  | alignment p offer => exact gives_alignmentOf h p offer
  | loss p offer => exact gives_lossOf h p offer
  | layout p offer =>
    apply gives_bind (gives_sizeOf h p offer)
    intro size _
    apply gives_bind (gives_alignmentOf h p offer)
    intro alignment _
    exact gives_bind (gives_lossOf h p offer) fun loss _ => gives_pure _
  | member p name => exact gives_ask (Engine.gives_extent h p name)
  | search members => exact gives_ask (Engine.gives_search h members)
  | ordering name => exact gives_ask (Engine.gives_ordering h name)
  | report name => exact gives_ask (Engine.gives_report h name)

theorem gives_describe (h : WellFormed r.entries) (name : String) :
    Gives (Workbench.Sound limit r) (describe limit name) (r.reportText limit name) := by
  apply gives_state_bind
  intro w hw
  rw [hw.registry_eq]
  refine gives_within (Engine.gives_reportText h name) ?_ ?_
  · intro w hw
    cases hd : w.describer with
    | none => exact Engine.sound_empty
    | some e => exact hw.describer e hd
  · intro w e hw he
    refine ⟨hw.registry_eq, hw.engine, ?_⟩
    intro e' he'
    cases he'
    exact he

end Workbench

/-! ## Registrations -/

section

variable {limit : DigitLimit} {r : Registry}

theorem Memory.Sound.call {p : Packing} {m : Memory} (hm : m.Sound limit p r)
    (h : WellFormed r.entries) (c : Call) : m.Sound limit p (r.call limit c).2 := by
  constructor
  · intro name e hname
    have he := hm.extents name e hname
    rw [Registry.extent_call limit p h c (Registry.isSome_lookup?_of_extent limit p he)]
    exact he
  · intro names found hnames
    exact Registry.orderingOf_call limit h c (hm.searches names found hnames)

/-- A call leaves every engine sound. -/
theorem Engine.Sound.call {e : Engine} (he : e.Sound limit r) (h : WellFormed r.entries)
    (c : Call) : e.Sound limit (r.call limit c).2 :=
  fun p => (he p).call h c

end

/-! ## The workshop -/

/-- The registry keeps its invariant, and all engines on it are sound. -/
structure Workshop.Sound (limit : DigitLimit) (w : Workshop) : Prop where
  wellFormed : WellFormed w.registry.entries
  engines : ∀ e ∈ w.engines, e.Sound limit w.registry
  describer : ∀ e, w.describer = some e → e.Sound limit w.registry

namespace Workshop

variable {limit : DigitLimit} {w : Workshop}

theorem sound_new {r : Registry} (h : WellFormed r.entries) : (new r).Sound limit := by
  refine ⟨h, ?_, ?_⟩
  · intro e he
    cases he
  · intro e he
    cases he

theorem Sound.bench (h : w.Sound limit) {e : Engine} (he : e.Sound limit w.registry) :
    (w.bench e).Sound limit w.registry := ⟨rfl, he, h.describer⟩

/-- What a sound workbench leaves behind makes a sound workshop. -/
theorem Sound.of_bench (h : w.Sound limit) {b : Workbench} (hb : b.Sound limit w.registry)
    {engines : List Engine} (he : ∀ e ∈ engines, e.Sound limit w.registry) :
    (⟨b.registry, engines, b.describer⟩ : Workshop).Sound limit := by
  obtain ⟨registry, engine, describer⟩ := b
  obtain ⟨rfl, _, hdescriber⟩ := hb
  exact ⟨h.wellFormed, he, hdescriber⟩

/-- One step keeps the workshop sound. -/
theorem Sound.after (h : w.Sound limit) (s : Step) : (w.after limit s).Sound limit := by
  cases s with
  | register call =>
    refine ⟨Registry.wellFormed_call limit h.wellFormed call, ?_, ?_⟩
    · intro e he
      exact (h.engines e he).call h.wellFormed call
    · intro e he
      exact (h.describer e he).call h.wellFormed call
  | newEngine =>
    refine ⟨h.wellFormed, ?_, h.describer⟩
    intro e he
    rcases List.mem_append.mp he with hold | hnew
    · exact h.engines e hold
    · rw [List.mem_singleton.mp hnew]
      exact Engine.sound_empty
  | ask i q =>
    cases hi : w.engines[i]? with
    | none =>
      have hsame : w.after limit (.ask i q) = w := by simp [Workshop.after, hi]
      rw [hsame]
      exact h
    | some e =>
      have he := h.engines e (List.mem_of_getElem? hi)
      have hb := (Workbench.gives_question h.wellFormed q ⟨w.bench e, []⟩ (h.bench he)).2
      have hafter : w.after limit (.ask i q) =
          let b := (runFrom (w.bench e) (q.ask limit)).2.state
          ⟨b.registry, w.engines.set i b.engine, b.describer⟩ := by
        simp [Workshop.after, hi]
      rw [hafter]
      apply h.of_bench hb
      intro e' he'
      rcases List.mem_or_eq_of_mem_set he' with hold | rfl
      · exact h.engines e' hold
      · exact hb.engine
  | describe name =>
    have hb := (Workbench.gives_describe h.wellFormed name ⟨w.bench .empty, []⟩
      (h.bench Engine.sound_empty)).2
    exact h.of_bench hb h.engines

/-- Only a call changes the registry. -/
theorem Sound.registry_after (h : w.Sound limit) (s : Step) :
    (w.after limit s).registry =
      match s with
      | .register call => (w.registry.call limit call).2
      | _ => w.registry := by
  cases s with
  | register call => rfl
  | newEngine => rfl
  | ask i q =>
    cases hi : w.engines[i]? with
    | none => simp [Workshop.after, hi]
    | some e =>
      have he := h.engines e (List.mem_of_getElem? hi)
      have hb := (Workbench.gives_question h.wellFormed q ⟨w.bench e, []⟩ (h.bench he)).2
      have hafter : (w.after limit (.ask i q)).registry =
          (runFrom (w.bench e) (q.ask limit)).2.state.registry := by
        simp [Workshop.after, hi]
      exact hafter.trans hb.registry_eq
  | describe name =>
    exact (Workbench.gives_describe h.wellFormed name ⟨w.bench .empty, []⟩
      (h.bench Engine.sound_empty)).2.registry_eq

/-- Every run keeps the workshop sound. -/
theorem sound_run (limit : DigitLimit) (steps : List Step) : (run limit steps).Sound limit := by
  have hfold : ∀ w : Workshop, w.Sound limit → (steps.foldl (after limit) w).Sound limit := by
    induction steps with
    | nil => exact fun w hw => hw
    | cons s rest ih => exact fun w hw => ih (w.after limit s) (hw.after s)
  exact hfold empty (sound_new trivial)

theorem Sound.answer_eq (h : w.Sound limit) {e : Engine} (he : e.Sound limit w.registry)
    (q : Question) : w.answer limit e q = q.plain limit w.registry :=
  (Workbench.gives_question h.wellFormed q ⟨w.bench e, []⟩ (h.bench he)).1

theorem Sound.description_eq (h : w.Sound limit) (name : String) :
    w.description limit name = w.registry.reportText limit name :=
  (Workbench.gives_describe h.wellFormed name ⟨w.bench .empty, []⟩ (h.bench Engine.sound_empty)).1

end Workshop

/-! ## The law -/

/-- No memory ever shows. After any run, every engine answers every question, also one about
unknown names, as a new engine on the same registry does, and that is the answer of the
recursion, which remembers nothing. So it is with the descriptions. All that is remembered, also
behind the descriptions, is what the recursion finds now. -/
theorem every_answer_is_that_of_a_new_engine (limit : DigitLimit) (steps : List Workshop.Step)
    (q : Question) (name : String) :
    let w := Workshop.run limit steps
    let new := Workshop.new w.registry
    (∀ e ∈ w.engines, w.answer limit e q = new.answer limit .empty q) ∧
      new.answer limit .empty q = q.plain limit w.registry ∧
      w.description limit name = new.description limit name ∧
      new.description limit name = w.registry.reportText limit name ∧
      (∀ e ∈ w.engines, e.Sound limit w.registry) ∧
      ∀ e, w.describer = some e → e.Sound limit w.registry := by
  intro w new
  have hw : w.Sound limit := Workshop.sound_run limit steps
  have hnew : new.Sound limit := Workshop.sound_new hw.wellFormed
  have hplain : new.answer limit .empty q = q.plain limit w.registry :=
    hnew.answer_eq Engine.sound_empty q
  have htext : new.description limit name = w.registry.reportText limit name :=
    hnew.description_eq name
  refine ⟨?_, hplain, ?_, htext, hw.engines, hw.describer⟩
  · intro e he
    rw [hplain]
    exact hw.answer_eq (hw.engines e he) q
  · rw [htext]
    exact hw.description_eq name

end DataLayout
