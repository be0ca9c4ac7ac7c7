-- The laws of the memories. A memory is sound when all that it remembers is what the recursion
-- over the registry finds. Every question keeps the memories sound, also one that fails on its
-- way, and its answer is the one of the recursion.
import DataLayout.Engine
import DataLayout.Proofs.Search

namespace DataLayout

open Text

/-! ## Steps with one answer -/

namespace Logged

variable {σ τ α β : Type} {inv : σ → Prop}

/-- From every state with the invariant, the step gives this answer and keeps the invariant. -/
def Gives (inv : σ → Prop) (step : Logged σ α) (answer : Except Failure α) : Prop :=
  ∀ t : Trail σ, inv t.state → (runOn t step).1 = answer ∧ inv (runOn t step).2.state

theorem gives_pure (a : α) : Gives inv (pure a) (.ok a) := by
  intro t ht
  rw [runOn_pure]
  exact ⟨rfl, ht⟩

theorem gives_throw (failure : Failure) :
    Gives inv (throw failure : Logged σ α) (.error failure) := by
  intro t ht
  rw [runOn_throw]
  exact ⟨rfl, ht⟩

theorem gives_lift (answer : Except Failure α) : Gives inv (answer : Logged σ α) answer := by
  intro t ht
  rw [runOn_lift]
  exact ⟨rfl, ht⟩

theorem gives_bind {step : Logged σ α} {answer : Except Failure α} {next : α → Logged σ β}
    {answers : α → Except Failure β} (h : Gives inv step answer)
    (hnext : ∀ a, answer = .ok a → Gives inv (next a) (answers a)) :
    Gives inv (step >>= next) (answer >>= answers) := by
  intro t ht
  obtain ⟨hanswer, hafter⟩ := h t ht
  rw [runOn_bind]
  rcases hrun : runOn t step with ⟨given, after⟩
  rw [hrun] at hanswer hafter
  cases given with
  | error failure =>
    rw [← hanswer]
    exact ⟨rfl, hafter⟩
  | ok a =>
    rw [← hanswer]
    exact hnext a hanswer.symm after hafter

/-- What is read from the state may decide how the step goes on, but not its answer. -/
theorem gives_state_bind {next : σ → Logged σ α} {answer : Except Failure α}
    (h : ∀ s, inv s → Gives inv (next s) answer) : Gives inv (state >>= next) answer := by
  intro t ht
  rw [runOn_bind, runOn_state]
  exact h t.state ht t ht

theorem gives_change {f : σ → σ} (h : ∀ s, inv s → inv (f s)) :
    Gives inv (change f) (.ok ()) := by
  intro t ht
  rw [runOn_change]
  exact ⟨rfl, h t.state ht⟩

theorem gives_note (limit : DigitLimit) (record : Record) :
    Gives inv (note limit record)
      (if record.writable limit then .ok () else .error .numeralTooLong) := by
  intro t ht
  rw [runOn_note]
  split_ifs
  · exact ⟨rfl, ht⟩
  · exact ⟨rfl, ht⟩

theorem gives_mapM {step : α → Logged σ β} {answers : α → Except Failure β} {items : List α}
    (h : ∀ a ∈ items, Gives inv (step a) (answers a)) :
    Gives inv (items.mapM step) (items.mapM answers) := by
  induction items with
  | nil => exact gives_pure []
  | cons a rest ih =>
    rw [List.mapM_cons, List.mapM_cons]
    apply gives_bind (h a List.mem_cons_self)
    intro first _
    apply gives_bind (ih fun b hb => h b (List.mem_cons_of_mem _ hb))
    intro others _
    exact gives_pure _

theorem gives_within {part : σ → τ} {put : τ → σ → σ} {inner : τ → Prop} {step : Logged τ α}
    {answer : Except Failure α} (h : Gives inner step answer) (hpart : ∀ s, inv s → inner (part s))
    (hput : ∀ s inside, inv s → inner inside → inv (put inside s)) :
    Gives inv (within part put step) answer := by
  intro t ht
  rw [runOn_within]
  obtain ⟨hanswer, hafter⟩ := h ⟨part t.state, t.records⟩ (hpart _ ht)
  exact ⟨hanswer, hput _ _ ht hafter⟩

end Logged

open Logged

/-! ## Sound memories -/

/-- All that a memory remembers is what the recursion over the registry finds. -/
structure Memory.Sound (limit : DigitLimit) (p : Packing) (r : Registry) (m : Memory) : Prop where
  extents : ∀ name e, m.extent? name = some e → r.extent limit p name = .ok e
  searches : ∀ names found, m.search? names = some found → r.orderingOf limit names = .ok found

section

variable {limit : DigitLimit} {p : Packing} {r : Registry} {m : Memory}

theorem Memory.sound_empty : Memory.empty.Sound limit p r := by
  constructor
  · intro name e h
    cases h
  · intro names found h
    cases h

theorem Memory.Sound.rememberExtent (h : m.Sound limit p r) {name : String} {e : Extent}
    (he : r.extent limit p name = .ok e) : (m.rememberExtent name e).Sound limit p r := by
  refine ⟨?_, h.searches⟩
  intro n e' hn
  simp only [Memory.extent?, Memory.rememberExtent, List.lookup_cons] at hn
  by_cases hname : n = name
  · subst hname
    simp only [beq_self_eq_true, Option.some.injEq] at hn
    rw [← hn, he]
  · rw [beq_false_of_ne hname] at hn
    exact h.extents n e' hn

theorem Memory.Sound.rememberSearch (h : m.Sound limit p r) {names ordering : List String}
    {size : Int} (hs : r.orderingOf limit names = .ok (ordering, size)) :
    (m.rememberSearch names ordering size).Sound limit p r := by
  refine ⟨h.extents, ?_⟩
  intro ns found hn
  simp only [Memory.search?, Memory.rememberSearch, List.lookup_cons] at hn
  by_cases hnames : ns = names
  · subst hnames
    simp only [beq_self_eq_true, Option.some.injEq] at hn
    rw [← hn, hs]
  · rw [beq_false_of_ne hnames] at hn
    exact h.searches ns found hn

end

/-! ## One definition -/

namespace Strategy

section

variable {limit : DigitLimit} {p : Packing} {r : Registry} {extentOf : String → Work Extent}

theorem gives_remembered {name : String} {find : Work Extent}
    (h : Gives (Memory.Sound limit p r) find (r.extent limit p name)) :
    Gives (Memory.Sound limit p r) (remembered name find) (r.extent limit p name) := by
  apply gives_state_bind
  intro m hm
  cases hfound : m.extent? name with
  | none => exact h
  | some e =>
    rw [hm.extents name e hfound]
    exact gives_pure e

theorem gives_requireMembers {inv : Memory → Prop} (names : List String) :
    Gives inv (requireMembers names) (Footprint.requireMembers names) := by
  unfold requireMembers Footprint.requireMembers
  split_ifs
  · exact gives_throw _
  · exact gives_pure ()

/-- Measured members are the names with what they take. -/
theorem membersOf_eq (f : String → Except Failure Extent) (names : List String) :
    Footprint.membersOf f names = List.zipWith Member.mk names <$> names.mapM f := by
  unfold Footprint.membersOf
  induction names with
  | nil => rfl
  | cons n rest ih =>
    rw [List.mapM_cons, List.mapM_cons, ih]
    cases f n with
    | error failure => rfl
    | ok e =>
      cases rest.mapM f with
      | error failure => rfl
      | ok others => rfl

/-- A question that only needs what the members take does not need their names. -/
theorem membersOf_bind {α : Type} (f : String → Except Failure Extent) (names : List String)
    (next : List Extent → Except Failure α) :
    (Footprint.membersOf f names >>= fun members => next (members.map (·.extent))) =
      names.mapM f >>= next := by
  induction names generalizing next with
  | nil => rfl
  | cons n rest ih =>
    have hrest := ih
    unfold Footprint.membersOf at hrest ⊢
    rw [List.mapM_cons, List.mapM_cons]
    cases hn : f n with
    | error failure => rfl
    | ok e => simpa [hn] using hrest fun others => next (e :: others)

/-- A search answers with the best ordering, remembered or not. -/
theorem gives_search {names : List String}
    (h : ∀ n ∈ names, Gives (Memory.Sound limit .optimized r) (extentOf n)
      (r.extent limit .optimized n)) :
    Gives (Memory.Sound limit .optimized r) (search limit extentOf names)
      (r.orderingOf limit names) := by
  apply gives_state_bind
  intro m hm
  cases hfound : m.search? names with
  | some found =>
    rw [hm.searches names found hfound]
    exact gives_pure found
  | none =>
    have horder : r.orderingOf limit names = names.mapM (r.extent limit .optimized) >>=
        fun extents => bestOrdering (List.zipWith Member.mk names extents) >>= fun best =>
          (if writable limit best.size then .ok () else .error .numeralTooLong) >>= fun _ =>
            .ok () >>= fun _ => .ok (best.members.map (·.name), best.size) := by
      simp only [Registry.orderingOf, Footprint.searchAmong, membersOf_eq, map_eq_pure_bind,
        bind_assoc, pure_bind]
      apply bind_congr
      intro extents
      apply bind_congr
      intro best
      split_ifs <;> rfl
    have hmake := horder
    rw [horder]
    apply gives_bind (gives_mapM h)
    intro extents hextents
    apply gives_bind (gives_lift _)
    intro best hbest
    apply gives_bind (gives_note limit _)
    intro _ hnote
    -- The finding may be remembered, since it is the answer of the whole search.
    have hfinding : r.orderingOf limit names = .ok (best.members.map (·.name), best.size) := by
      rw [hmake, hextents, ok_bind, hbest, ok_bind]
      exact congrArg (· >>= _) hnote
    apply gives_bind (gives_change fun m hm => hm.rememberSearch hfinding)
    intro _ _
    exact gives_pure _

theorem gives_sizeWith {d : Definition}
    (h : ∀ n ∈ d.references, Gives (Memory.Sound limit p r) (extentOf n) (r.extent limit p n)) :
    Gives (Memory.Sound limit p r) (sizeWith limit (some p) extentOf d) (r.sizeOf limit p d) := by
  unfold Registry.sizeOf
  cases d with
  | atomic size alignment => exact gives_pure size
  | struct names =>
    apply gives_bind (gives_requireMembers names)
    intro _ _
    cases p with
    | unpacked =>
      have hsize := membersOf_bind (r.extent limit .unpacked) names sizeInOrder
      simp only [structSize]
      rw [hsize]
      exact gives_bind (gives_mapM h) fun extents _ => gives_lift _
    | packed =>
      have hsize := membersOf_bind (r.extent limit .packed) names
        fun extents => pure (sizeWithoutPadding extents)
      simp only [structSize]
      rw [hsize]
      exact gives_bind (gives_mapM h) fun extents _ => gives_pure _
    | optimized =>
      have hsize : (Footprint.membersOf (r.extent limit .optimized) names >>= fun members => do
          return (← Footprint.searchAmong limit members).size) =
          r.orderingOf limit names >>= fun found => pure found.2 := by
        simp [Registry.orderingOf]
      simp only [structSize]
      rw [hsize]
      exact gives_bind (gives_search h) fun found _ => gives_pure _
  | union names =>
    apply gives_bind (gives_requireMembers names)
    intro _ _
    have hsize := membersOf_bind (r.extent limit p) names
      fun extents => largest (extents.map (·.size))
    simp only [List.map_map, Function.comp_def] at hsize
    rw [hsize]
    exact gives_bind (gives_mapM h) fun extents _ => gives_lift _

theorem gives_alignmentWith {d : Definition}
    (h : ∀ n ∈ d.references, Gives (Memory.Sound limit p r) (extentOf n) (r.extent limit p n)) :
    Gives (Memory.Sound limit p r) (alignmentWith limit (some p) extentOf d)
      (r.alignmentOf limit p d) := by
  unfold Registry.alignmentOf
  cases d with
  | atomic size alignment => exact gives_pure alignment
  | struct names =>
    apply gives_bind (gives_requireMembers names)
    intro _ hmembers
    have hnames : names ≠ [] := by
      rintro rfl
      cases hmembers
    cases p with
    | unpacked =>
      exact gives_bind (h _ (Footprint.headD_mem hnames "")) fun e _ => gives_pure _
    | packed =>
      exact gives_bind (h _ (Footprint.headD_mem hnames "")) fun e _ => gives_pure _
    | optimized =>
      have halign := Registry.alignmentOf_head r limit hnames
      simp only [structAlignment]
      rw [halign]
      apply gives_bind (gives_search h)
      intro found hfound
      apply gives_bind (h _ (Registry.head_of_orderingOf hnames hfound))
      intro e _
      exact gives_pure _
  | union names =>
    apply gives_bind (gives_requireMembers names)
    intro _ _
    have halign := membersOf_bind (r.extent limit p) names
      fun extents => jointAlignment (extents.map (·.alignment))
    simp only [List.map_map, Function.comp_def] at halign
    rw [halign]
    exact gives_bind (gives_mapM h) fun extents _ => gives_lift _

end

/-! ## Names -/

section

variable {limit : DigitLimit} {p : Packing} {r : Registry}

/-- A definition is measured and the finding is remembered, for a name that takes what the
definition takes. -/
theorem gives_measured {name : String} {d : Definition} {known : String → Work Extent}
    (hname : r.extent limit p name = Footprint.measured limit p (r.extent limit p) d)
    (hknown : ∀ n ∈ d.references, Gives (Memory.Sound limit p r) (known n)
      (r.extent limit p n)) :
    Gives (Memory.Sound limit p r)
      (do
        let size ← sizeWith limit (some p) known d
        let alignment ← alignmentWith limit (some p) known d
        change fun m => m.rememberExtent name ⟨size, alignment⟩
        return ⟨size, alignment⟩)
      (Footprint.measured limit p (r.extent limit p) d) := by
  apply gives_bind (gives_sizeWith hknown)
  intro size hsize
  apply gives_bind (gives_alignmentWith hknown)
  intro alignment halignment
  have hfound : r.extent limit p name = .ok ⟨size, alignment⟩ := by
    rw [hname]
    exact Footprint.measured_eq_ok hsize halignment
  exact gives_bind (gives_change fun m hm => hm.rememberExtent hfound) fun _ _ => gives_pure _

/-- Among the entries from some point on, a name is found out as the recursion finds it. What
is remembered comes from the whole registry, and is the same. -/
theorem gives_findExtent (h : WellFormed r.entries) (newer : List Entry) {entries : List Entry}
    (hentries : r.entries = newer ++ entries) (name : String) :
    Gives (Memory.Sound limit p r) (findExtent limit (some p) entries name)
      (Footprint.extentIn limit p entries name) := by
  induction entries generalizing newer name with
  | nil => exact gives_throw _
  | cons e older ih =>
    have hwell : WellFormed (newer ++ e :: older) := hentries ▸ h
    have holder : r.entries = (newer ++ [e]) ++ older := by simp [hentries]
    unfold findExtent
    by_cases hname : e.name = name
    · subst hname
      rw [if_pos rfl]
      have hfits : e.definition.Fits older := hwell.of_append.2.1
      have hrefs : ∀ n ∈ e.definition.references,
          Footprint.extentIn limit p older n = r.extent limit p n := by
        intro n hn
        unfold Registry.extent
        rw [holder]
        exact (Footprint.extentIn_append limit p _ (holder ▸ h) (hfits.isSome_of_mem hn)).symm
      have hknown : ∀ n ∈ e.definition.references, Gives (Memory.Sound limit p r)
          (remembered n (findExtent limit (some p) older n)) (r.extent limit p n) := by
        intro n hn
        have hfind := ih (newer ++ [e]) holder n
        rw [hrefs n hn] at hfind
        exact gives_remembered hfind
      have hself : r.extent limit p e.name =
          Footprint.measured limit p (r.extent limit p) e.definition := by
        rw [← Footprint.measured_congr hrefs, ← Footprint.extentIn_cons_self]
        unfold Registry.extent
        rw [hentries]
        exact Footprint.extentIn_append limit p newer hwell (by rw [definitionIn?_cons_self]; rfl)
      rw [Footprint.extentIn_cons_self, Footprint.measured_congr hrefs]
      exact gives_measured hself hknown
    · rw [if_neg hname, Footprint.extentIn_cons_of_ne limit p older hname]
      exact ih (newer ++ [e]) holder name

theorem gives_extent (h : WellFormed r.entries) (name : String) :
    Gives (Memory.Sound limit p r) (extent limit (some p) r name) (r.extent limit p name) :=
  gives_remembered (gives_findExtent h [] rfl name)

/-- One level of the recursion by name finds what the name takes, if the names of its definition
are measured. -/
theorem gives_level (h : WellFormed r.entries) {name : String} {inner : String → Work Extent}
    (hinner : ∀ n, r.Refers name n → Gives (Memory.Sound limit p r) (inner n)
      (r.extent limit p n)) :
    Gives (Memory.Sound limit p r) (level limit (some p) r inner name)
      (r.extent limit p name) := by
  apply gives_remembered
  have hlevel := Registry.extent_eq_level limit p h name
  unfold Registry.level at hlevel
  rw [hlevel]
  apply gives_bind (gives_lift _)
  intro d hd
  have hlookup : r.lookup? name = some d := orFail_eq_ok_iff.mp hd
  exact gives_measured (Registry.extent_of_lookup limit p h hlookup) fun n hn =>
    hinner n ⟨d, hlookup, hn⟩

/-- The recursion by name ends with a memory, too. From enough levels it finds what the name
takes, whatever stands below the last level. -/
theorem gives_iterate_level (h : WellFormed r.entries) (inner : String → Work Extent)
    {depth : Nat} {name : String} (hdepth : r.names.idxOf name < depth) :
    Gives (Memory.Sound limit p r) ((level limit (some p) r)^[depth] inner name)
      (r.extent limit p name) := by
  induction depth generalizing name with
  | zero => omega
  | succ depth ih =>
    rw [Function.iterate_succ_apply']
    apply gives_level h
    intro n hrefers
    apply ih
    have := Registry.idxOf_lt_idxOf_of_refers h hrefers
    omega

theorem gives_size (h : WellFormed r.entries) (d : Definition) :
    Gives (Memory.Sound limit p r) (size limit (some p) r d) (r.sizeOf limit p d) :=
  gives_sizeWith fun n _ => gives_extent h n

theorem gives_alignment (h : WellFormed r.entries) (d : Definition) :
    Gives (Memory.Sound limit p r) (alignment limit (some p) r d) (r.alignmentOf limit p d) :=
  gives_alignmentWith fun n _ => gives_extent h n

theorem gives_ordering (h : WellFormed r.entries) (names : List String) :
    Gives (Memory.Sound limit .optimized r) (ordering limit r names)
      (r.orderingOf limit names) :=
  gives_search fun n _ => gives_extent h n

end

end Strategy

/-! ## Engines -/

/-- The memories of all three strategies are sound. -/
def Engine.Sound (limit : DigitLimit) (r : Registry) (e : Engine) : Prop :=
  ∀ p, (e.memory p).Sound limit p r

namespace Engine

variable {limit : DigitLimit} {r : Registry}

theorem sound_empty : Engine.empty.Sound limit r := by
  intro p
  cases p <;> exact Memory.sound_empty

theorem memory_putMemory (p q : Packing) (m : Memory) (e : Engine) :
    (putMemory p m e).memory q = if q = p then m else e.memory q := by
  cases p <;> cases q <;> rfl

theorem gives_strategy {α : Type} {p : Packing} {step : Strategy.Work α}
    {answer : Except Failure α} (h : Gives (Memory.Sound limit p r) step answer) :
    Gives (Engine.Sound limit r) (strategy p step) answer := by
  refine gives_within h (fun e he => he p) ?_
  intro e m he hm q
  rw [memory_putMemory]
  split_ifs with hq
  · exact hq ▸ hm
  · exact he q

/-! ### Questions to an engine -/

theorem gives_extent (h : WellFormed r.entries) (p : Packing) (name : String) :
    Gives (Engine.Sound limit r) (extent limit r p name) (r.extent limit p name) :=
  gives_strategy (Strategy.gives_extent h name)

theorem gives_size (h : WellFormed r.entries) (p : Packing) (d : Definition) :
    Gives (Engine.Sound limit r) (size limit r p d) (r.sizeOf limit p d) :=
  gives_strategy (Strategy.gives_size h d)

theorem gives_alignment (h : WellFormed r.entries) (p : Packing) (d : Definition) :
    Gives (Engine.Sound limit r) (alignment limit r p d) (r.alignmentOf limit p d) :=
  gives_strategy (Strategy.gives_alignment h d)

theorem gives_search (h : WellFormed r.entries) (names : List String) :
    Gives (Engine.Sound limit r) (search limit r names) (r.orderingOf limit names) :=
  gives_strategy (Strategy.gives_ordering h names)

theorem gives_packedSizes (h : WellFormed r.entries) (p : Packing) (total : Int)
    (names : List String) : Gives (Engine.Sound limit r) (packedSizes limit r p total names)
      (r.packedSizes limit p total names) := by
  induction names with
  | nil => exact gives_pure []
  | cons n rest ih =>
    apply gives_bind (gives_extent h p n)
    intro e _
    split_ifs
    · apply gives_bind (gives_extent h .packed n)
      intro packed _
      exact gives_bind ih fun others _ => gives_pure _
    · exact ih

theorem gives_loss (h : WellFormed r.entries) (p : Packing) (d : Definition) :
    Gives (Engine.Sound limit r) (loss limit r p d) (r.lossOf limit p d) := by
  apply gives_bind (gives_size h p d)
  intro total _
  cases d with
  | atomic size alignment =>
    exact gives_bind (gives_size h .packed _) fun packed _ => gives_pure _
  | struct names => exact gives_bind (gives_size h .packed _) fun packed _ => gives_pure _
  | union names =>
    apply gives_bind (gives_packedSizes h p total names)
    intro sizes _
    exact gives_bind (gives_lift _) fun best _ => gives_pure _

theorem gives_layout (h : WellFormed r.entries) (p : Packing) (d : Definition) :
    Gives (Engine.Sound limit r) (layout limit r p d) (r.layoutOf limit p d) := by
  apply gives_bind (gives_size h p d)
  intro size _
  apply gives_bind (gives_alignment h p d)
  intro alignment _
  exact gives_bind (gives_loss h p d) fun loss _ => gives_pure _

theorem gives_ordering (h : WellFormed r.entries) (name : String) :
    Gives (Engine.Sound limit r) (ordering limit r name) (r.ordering limit name) := by
  apply gives_bind (gives_lift _)
  intro d _
  have hrefuse : ∀ d : Definition, Gives (Engine.Sound limit r)
      (if d.writable limit then throw (.notAStruct name d.text) else throw .numeralTooLong :
        Logged Engine (List String × Int))
      (if d.writable limit then throw (.notAStruct name d.text) else throw .numeralTooLong) := by
    intro d
    split_ifs <;> exact gives_throw _
  cases d with
  | atomic size alignment => exact hrefuse _
  | struct names => exact gives_search h names
  | union names => exact hrefuse _

theorem gives_report (h : WellFormed r.entries) (name : String) :
    Gives (Engine.Sound limit r) (report limit r name) (r.report limit name) := by
  apply gives_bind (gives_lift _)
  intro d _
  apply gives_bind (gives_layout h .unpacked d)
  intro unpacked _
  apply gives_bind (gives_layout h .packed d)
  intro packed _
  apply gives_bind (gives_layout h .optimized d)
  intro optimized _
  cases d with
  | atomic size alignment => exact gives_pure _
  | struct names => exact gives_bind (gives_ordering h name) fun found _ => gives_pure _
  | union names => exact gives_pure _

theorem gives_reportText (h : WellFormed r.entries) (name : String) :
    Gives (Engine.Sound limit r) (reportText limit r name) (r.reportText limit name) := by
  apply gives_bind (gives_report h name)
  intro report _
  split_ifs
  · exact gives_pure _
  · exact gives_throw _

end Engine

end DataLayout
