-- The laws of the findings of a strategy. It puts a finding on record when it remembers it, and
-- nothing else, so its log is the list of its findings. A measured name is remembered when all
-- structs that it leads to are found, and a search cannot come upon its own struct.
import DataLayout.Proofs.Memory
import DataLayout.Proofs.Nesting

namespace DataLayout

open Logged Text

/-! ## Steps that put their findings on record -/

namespace Logged

variable {σ τ α β : Type} {inv : σ → Prop} {found : σ → List Finding}
  {scope scope' whole : List String → Prop}

theorem runOn_state_bind (t : Trail σ) (next : σ → Logged σ α) :
    runOn t (state >>= next) = runOn t (next t.state) := by
  rw [runOn_bind, runOn_state]

theorem runOn_bind_eq_ok {t after : Trail σ} {step : Logged σ α} {next : α → Logged σ β} {b : β}
    (h : runOn t (step >>= next) = (.ok b, after)) :
    ∃ a mid, runOn t step = (.ok a, mid) ∧ runOn mid (next a) = (.ok b, after) := by
  rw [runOn_bind] at h
  rcases hrun : runOn t step with ⟨answer, mid⟩
  rw [hrun] at h
  cases answer with
  | error failure => cases h
  | ok a => exact ⟨a, mid, rfl, h⟩

/-- From one trail to another there are new findings, all within a scope, and each of them is on
record. Nothing else is on record. -/
structure Adds (found : σ → List Finding) (scope : List String → Prop) (before after : Trail σ)
    (new : List Finding) : Prop where
  found_eq : found after.state = new.reverse ++ found before.state
  records_eq : after.records = before.records ++ new.map Finding.record
  within : ∀ f ∈ new, scope f.1

/-- All structs of a scope are found. -/
def Covers (found : σ → List Finding) (scope : List String → Prop) (s : σ) : Prop :=
  ∀ members, scope members → members ∈ structsOf (found s)

/-- From this trail, the step only finds structs of the scope and puts them on record. When it
succeeds, all of them are found. -/
def TracesFrom (inv : σ → Prop) (found : σ → List Finding) (scope : List String → Prop)
    (t : Trail σ) (step : Logged σ α) : Prop :=
  ∃ new, Adds found scope t (runOn t step).2 new ∧ inv (runOn t step).2.state ∧
    ∀ a, (runOn t step).1 = .ok a → Covers found scope (runOn t step).2.state

def Traces (inv : σ → Prop) (found : σ → List Finding) (scope : List String → Prop)
    (step : Logged σ α) : Prop :=
  ∀ t : Trail σ, inv t.state → TracesFrom inv found scope t step

theorem Adds.refl (found : σ → List Finding) (scope : List String → Prop) (t : Trail σ) :
    Adds found scope t t [] :=
  ⟨rfl, by simp, fun _ hmem => by cases hmem⟩

theorem Adds.trans {before mid after : Trail σ} {new newer : List Finding}
    (h : Adds found scope before mid new) (h' : Adds found scope mid after newer) :
    Adds found scope before after (new ++ newer) where
  found_eq := by rw [h'.found_eq, h.found_eq, List.reverse_append, List.append_assoc]
  records_eq := by rw [h'.records_eq, h.records_eq, List.map_append, List.append_assoc]
  within := by
    intro f hf
    rcases List.mem_append.mp hf with hmem | hmem
    · exact h.within f hmem
    · exact h'.within f hmem

theorem Adds.mono {before after : Trail σ} {new : List Finding}
    (h : Adds found scope before after new) (hscope : ∀ members, scope members → whole members) :
    Adds found whole before after new :=
  ⟨h.found_eq, h.records_eq, fun f hf => hscope _ (h.within f hf)⟩

theorem Adds.covers {before after : Trail σ} {new : List Finding}
    (h : Adds found scope before after new) (hcovers : Covers found scope' before.state) :
    Covers found scope' after.state := by
  intro members hmembers
  rw [h.found_eq, structsOf, List.map_append]
  exact List.mem_append_right _ (hcovers members hmembers)

theorem TracesFrom.congr {t : Trail σ} {step : Logged σ α}
    (h : TracesFrom inv found scope t step) (hscope : ∀ members, whole members ↔ scope members) :
    TracesFrom inv found whole t step := by
  obtain ⟨new, hadds, hinv, hcovers⟩ := h
  exact ⟨new, hadds.mono fun members => (hscope members).mpr, hinv, fun a ha members hmembers =>
    hcovers a ha members ((hscope members).mp hmembers)⟩

/-- A step within a scope that is found already. -/
theorem TracesFrom.widen {t : Trail σ} {step : Logged σ α}
    (h : TracesFrom inv found scope t step) (hscope : ∀ members, scope members → whole members)
    (hcovers : Covers found whole t.state) : TracesFrom inv found whole t step := by
  obtain ⟨new, hadds, hinv, _⟩ := h
  exact ⟨new, hadds.mono hscope, hinv, fun _ _ => hadds.covers hcovers⟩

theorem tracesFrom_pure {t : Trail σ} (ht : inv t.state) (a : α)
    (hcovers : Covers found scope t.state) : TracesFrom inv found scope t (pure a) :=
  ⟨[], Adds.refl found scope t, ht, fun _ _ => hcovers⟩

theorem tracesFrom_throw {t : Trail σ} (ht : inv t.state) (failure : Failure) :
    TracesFrom inv found scope t (throw failure : Logged σ α) := by
  refine ⟨[], Adds.refl found scope t, ht, fun a ha => ?_⟩
  rw [runOn_throw] at ha
  cases ha

/-- The next step goes on from where the first one succeeds. -/
theorem TracesFrom.bind {t : Trail σ} {step : Logged σ α} {next : α → Logged σ β}
    (h : TracesFrom inv found scope t step)
    (hnext : ∀ a mid new, runOn t step = (.ok a, mid) → Adds found scope t mid new →
      inv mid.state → Covers found scope mid.state → TracesFrom inv found scope' mid (next a))
    (hscope : ∀ members, whole members ↔ scope members ∨ scope' members) :
    TracesFrom inv found whole t (step >>= next) := by
  obtain ⟨new, hadds, hinv, hcovers⟩ := h
  unfold TracesFrom
  rw [runOn_bind]
  rcases hrun : runOn t step with ⟨answer, mid⟩
  rw [hrun] at hadds hinv hcovers
  cases answer with
  | error failure =>
    exact ⟨new, hadds.mono fun members hmembers => (hscope members).mpr (Or.inl hmembers), hinv,
      fun _ ha => by cases ha⟩
  | ok a =>
    obtain ⟨newer, hadds', hinv', hcovers'⟩ :=
      hnext a mid new hrun hadds hinv (hcovers a rfl)
    refine ⟨new ++ newer, ?_, hinv', fun b hb members hmembers => ?_⟩
    · exact (hadds.mono fun members hmembers => (hscope members).mpr (Or.inl hmembers)).trans
        (hadds'.mono fun members hmembers => (hscope members).mpr (Or.inr hmembers))
    · rcases (hscope members).mp hmembers with hfirst | hsecond
      · exact hadds'.covers (hcovers a rfl) members hfirst
      · exact hcovers' b hb members hsecond

theorem traces_pure (a : α) : Traces inv found (fun _ => False) (pure a) :=
  fun _ ht => tracesFrom_pure ht a fun _ hmembers => hmembers.elim

theorem traces_lift (answer : Except Failure α) :
    Traces inv found (fun _ => False) (answer : Logged σ α) := by
  intro t ht
  refine ⟨[], ?_, ?_, fun _ _ _ hmembers => hmembers.elim⟩
  · rw [runOn_lift]
    exact Adds.refl found _ t
  · rw [runOn_lift]
    exact ht

theorem tracesFrom_lift_bind {t : Trail σ} {answer : Except Failure α} {next : α → Logged σ β}
    (ht : inv t.state)
    (hnext : ∀ a, answer = .ok a → TracesFrom inv found scope t (next a)) :
    TracesFrom inv found scope t ((answer : Logged σ α) >>= next) := by
  unfold TracesFrom
  rw [runOn_bind, runOn_lift]
  cases answer with
  | error failure => exact tracesFrom_throw ht failure
  | ok a => exact hnext a rfl

/-- A step that only goes on with what was found out. -/
theorem Traces.andThen {step : Logged σ α} {next : α → Logged σ β}
    (h : Traces inv found scope step) (hnext : ∀ a, Traces inv found (fun _ => False) (next a)) :
    Traces inv found scope (step >>= next) :=
  fun t ht => (h t ht).bind (fun a mid _ _ _ hinv _ => hnext a mid hinv) fun _ =>
    (or_iff_left id).symm

theorem traces_mapM {step : α → Logged σ β} {scopes : α → List String → Prop} {items : List α}
    (h : ∀ a ∈ items, Traces inv found (scopes a) (step a)) :
    Traces inv found (fun members => ∃ a ∈ items, scopes a members) (items.mapM step) := by
  induction items with
  | nil => exact fun t ht => tracesFrom_pure ht [] fun _ ⟨_, hmem, _⟩ => by cases hmem
  | cons a rest ih =>
    rw [List.mapM_cons]
    intro t ht
    have hrest := ih fun b hb => h b (List.mem_cons_of_mem _ hb)
    exact (h a List.mem_cons_self t ht).bind
      (fun first mid _ _ _ hinv _ => hrest.andThen (fun _ => traces_pure _) mid hinv) (by simp)

end Logged

/-! ## Memories -/

/-- What a name brings under a packing: the structs that it leads to, as they are laid out only
when they are optimized. -/
def Registry.Brings (r : Registry) (p : Packing) (name : String) (members : List String) : Prop :=
  p = .optimized ∧ r.LeadsTo name members

/-- The findings of a memory are layered, and all that a remembered name brings is found. -/
structure Memory.Known (r : Registry) (p : Packing) (m : Memory) : Prop where
  layered : Layered r m.searches
  covers : ∀ name e, m.extent? name = some e → Covers (·.searches) (r.Brings p name) m

section

variable {r : Registry} {p : Packing} {m : Memory}

theorem Memory.known_empty : Memory.empty.Known r p := by
  refine ⟨trivial, ?_⟩
  intro name e h
  cases h

theorem Memory.Known.rememberExtent (h : m.Known r p) {name : String} (e : Extent)
    (hcovers : Covers (·.searches) (r.Brings p name) m) :
    (m.rememberExtent name e).Known r p := by
  refine ⟨h.layered, ?_⟩
  intro n e' hn
  simp only [Memory.extent?, Memory.rememberExtent, List.lookup_cons] at hn
  by_cases hname : n = name
  · subst hname
    exact hcovers
  · rw [beq_false_of_ne hname] at hn
    exact h.covers n e' hn

theorem Memory.Known.rememberSearch (h : m.Known r p) {names ordering : List String} (size : Int)
    (hnew : names ∉ structsOf m.searches) (hhead : ordering.headD "" ∈ names)
    (hinner : ∀ inner, r.Nests names inner → inner ∈ structsOf m.searches) :
    (m.rememberSearch names ordering size).Known r p :=
  ⟨⟨hnew, hhead, hinner, h.layered⟩, fun name e hname members hmembers =>
    List.mem_cons_of_mem _ (h.covers name e hname members hmembers)⟩

theorem Memory.search?_eq_none_iff {names : List String} :
    m.search? names = none ↔ names ∉ structsOf m.searches := by
  unfold search? structsOf
  rw [List.lookup_eq_none_iff, List.mem_map, not_exists]
  simp only [not_and, bne_iff_ne]
  exact forall₂_congr fun f _ => ne_comm

theorem Memory.mem_of_search? {names : List String} {found : List String × Int}
    (h : m.search? names = some found) : (names, found) ∈ m.searches := by
  obtain ⟨before, after, hsearches, _⟩ := List.lookup_eq_some_iff.mp h
  rw [hsearches]
  exact List.mem_append_right _ List.mem_cons_self

end

/-- What is known stays known when the registry grows, since an old name brings nothing new. -/
theorem Memory.Known.grown {limit : DigitLimit} {r grown : Registry} {p : Packing} {m : Memory}
    (h : m.Known r p) (hsound : m.Sound limit p r) (hwell : WellFormed r.entries)
    (hgrown : ∀ n d, r.lookup? n = some d → grown.lookup? n = some d) : m.Known grown p := by
  refine ⟨h.layered.grown hwell hgrown fun f hf => ?_, ?_⟩
  · exact Registry.isSome_of_orderingOf (hsound.searches f.1 f.2 (h.layered.lookup_of_mem hf))
  · rintro name e hname members ⟨hp, hleads⟩
    have hregistered := Registry.isSome_lookup?_of_extent limit p (hsound.extents name e hname)
    exact h.covers name e hname members
      ⟨hp, Registry.leadsTo_of_grown hwell hgrown hregistered hleads⟩

/-! ## One definition -/

namespace Strategy

section

variable {limit : DigitLimit} {p : Packing} {r : Registry} {extentOf : String → Work Extent}

theorem traces_remembered {name : String} {find : Work Extent}
    (h : Traces (Memory.Known r p) (·.searches) (r.Brings p name) find) :
    Traces (Memory.Known r p) (·.searches) (r.Brings p name) (remembered name find) := by
  intro t ht
  unfold TracesFrom remembered
  rw [runOn_state_bind]
  cases hfound : t.state.extent? name with
  | none => exact h t ht
  | some e => exact tracesFrom_pure ht e (ht.covers name e hfound)

theorem traces_requireMembers {α : Type} {inv : Memory → Prop} {scope : List String → Prop}
    {names : List String} {next : Work α}
    (h : names ≠ [] → Traces inv (·.searches) scope next) :
    Traces inv (·.searches) scope (requireMembers names >>= fun _ => next) := by
  intro t ht
  unfold requireMembers
  by_cases hnames : names = []
  · rw [if_pos (by simpa using hnames)]
    exact tracesFrom_throw ht _
  · rw [if_neg (by simpa using hnames)]
    exact h hnames t ht

/-- The head of the best ordering of some named members is one of the names. -/
theorem head_mem_of_bestOrdering {names : List String} {extents : List Extent} {best : Ordered}
    (h : bestOrdering (List.zipWith Member.mk names extents) = .ok best) :
    (best.members.map (·.name)).headD "" ∈ names := by
  have hmem := (bestOrdering_mem h).1
  have hne : best.members ≠ [] := by
    intro hnil
    have hperm := bestOrdering_perm h
    rw [hnil] at hperm hmem
    rw [List.nil_perm.mp hperm] at hmem
    cases hmem
  obtain ⟨m, rest, hbest⟩ := List.exists_cons_of_ne_nil hne
  have hm : m ∈ List.zipWith Member.mk names extents :=
    (bestOrdering_perm h).mem_iff.mp (by rw [hbest]; exact List.mem_cons_self)
  rw [hbest]
  rw [← List.map_uncurry_zip_eq_zipWith, List.mem_map] at hm
  obtain ⟨⟨n, e⟩, hpair, rfl⟩ := hm
  exact (List.of_mem_zip hpair).1

/-- A finding is put on record and remembered, or its record cannot be written. -/
theorem tracesFrom_noteSearch {t : Trail Memory} (ht : t.state.Known r .optimized)
    {names ordering : List String} {size : Int} (hnew : names ∉ structsOf t.state.searches)
    (hhead : ordering.headD "" ∈ names) (hinner : Covers (·.searches) (r.Nests names) t.state) :
    TracesFrom (Memory.Known r .optimized) (·.searches) (· = names) t (do
      note limit (.ordered names ordering size)
      change fun m => m.rememberSearch names ordering size
      return (ordering, size)) := by
  unfold TracesFrom
  rw [runOn_bind, runOn_note]
  by_cases hwritable : (Record.ordered names ordering size).writable limit = true
  · rw [if_pos hwritable]
    refine ⟨[(names, ordering, size)], ⟨rfl, rfl, ?_⟩, ?_, ?_⟩
    · intro f hf
      rw [List.mem_singleton.mp hf]
    · exact ht.rememberSearch size hnew hhead hinner
    · rintro _ _ members rfl
      exact List.mem_cons_self
  · rw [if_neg hwritable]
    exact tracesFrom_throw ht _

/-- What a search answers with is what is remembered for the struct. -/
theorem mem_of_search {t after : Trail Memory} {names : List String}
    {found : List String × Int}
    (h : runOn t (search limit extentOf names) = (.ok found, after)) :
    (names, found) ∈ after.state.searches := by
  unfold search at h
  rw [runOn_state_bind] at h
  cases hfound : t.state.search? names with
  | some remembered =>
    simp only [hfound, runOn_pure, Prod.mk.injEq, Except.ok.injEq] at h
    obtain ⟨rfl, rfl⟩ := h
    exact Memory.mem_of_search? hfound
  | none =>
    simp only [hfound] at h
    obtain ⟨extents, _, _, h⟩ := runOn_bind_eq_ok h
    obtain ⟨best, _, _, h⟩ := runOn_bind_eq_ok h
    obtain ⟨_, _, _, h⟩ := runOn_bind_eq_ok h
    rw [runOn_bind, runOn_change] at h
    simp only [runOn_pure, Prod.mk.injEq, Except.ok.injEq] at h
    obtain ⟨rfl, rfl⟩ := h
    exact List.mem_cons_self

/-- A search finds what is inside of the struct, and then the struct. It cannot come upon the
struct itself on the way. -/
theorem traces_search (hwell : WellFormed r.entries) {names : List String}
    (h : ∀ n ∈ names, Traces (Memory.Known r .optimized) (·.searches) (r.LeadsTo n)
      (extentOf n)) :
    Traces (Memory.Known r .optimized) (·.searches)
      (fun members => r.Nests names members ∨ members = names)
      (search limit extentOf names) := by
  intro t ht
  unfold TracesFrom search
  rw [runOn_state_bind]
  cases hfound : t.state.search? names with
  | some found =>
    have hmem : names ∈ structsOf t.state.searches :=
      List.mem_map.mpr ⟨_, Memory.mem_of_search? hfound, rfl⟩
    refine tracesFrom_pure ht found ?_
    rintro members (hnests | rfl)
    · exact ht.layered.mem_of_nests hmem hnests
    · exact hmem
  | none =>
    refine TracesFrom.bind (traces_mapM h t ht) ?_ fun members => Iff.rfl
    intro extents mid new _ hadds hmid hcovers
    -- Nothing that was found on the way is this struct, since it would be inside of itself.
    have hnew : names ∉ structsOf mid.state.searches := by
      rw [hadds.found_eq, structsOf, List.map_append, List.mem_append, not_or]
      refine ⟨fun hmem => ?_, Memory.search?_eq_none_iff.mp hfound⟩
      obtain ⟨f, hf, hfirst⟩ := List.mem_map.mp hmem
      have hnests := hadds.within f (List.mem_reverse.mp hf)
      rw [hfirst] at hnests
      exact Registry.not_nests_self hwell names hnests
    refine tracesFrom_lift_bind hmid fun best hbest => ?_
    have hhead := head_mem_of_bestOrdering hbest
    exact tracesFrom_noteSearch hmid hnew hhead hcovers

/-- What a name brings when it is optimized is what it leads to. -/
theorem traces_leadsTo {name : String} {step : Work Extent}
    (h : Traces (Memory.Known r .optimized) (·.searches) (r.Brings .optimized name) step) :
    Traces (Memory.Known r .optimized) (·.searches) (r.LeadsTo name) step :=
  fun t ht => (h t ht).congr fun _ => (and_iff_right rfl).symm

variable (hwell : WellFormed r.entries) {d : Definition}
  (h : ∀ n ∈ d.references, Traces (Memory.Known r p) (·.searches) (r.Brings p n) (extentOf n))

/-- What the members of a struct or a union bring. -/
theorem traces_members {names : List String}
    (h : ∀ n ∈ names, Traces (Memory.Known r p) (·.searches) (r.Brings p n) (extentOf n)) :
    Traces (Memory.Known r p) (·.searches)
      (fun members => p = .optimized ∧ r.Nests names members) (names.mapM extentOf) :=
  fun t ht => (traces_mapM h t ht).congr fun members => by
    simp only [Registry.Brings, Registry.Nests]
    constructor
    · rintro ⟨hp, n, hn, hleads⟩
      exact ⟨n, hn, hp, hleads⟩
    · rintro ⟨n, hn, hp, hleads⟩
      exact ⟨hp, n, hn, hleads⟩

include hwell h in
theorem traces_sizeWith : Traces (Memory.Known r p) (·.searches)
    (fun members => p = .optimized ∧ r.Holds d members) (sizeWith limit (some p) extentOf d) := by
  cases d with
  | atomic size alignment =>
    intro t ht
    exact tracesFrom_pure ht size fun _ hmembers => absurd hmembers.2 Registry.not_holds_atomic
  | struct names =>
    refine traces_requireMembers fun _ t ht => ?_
    simp only [Registry.holds_struct_iff]
    cases p with
    | unpacked =>
      exact ((traces_members h).andThen fun extents => traces_lift _) t ht |>.congr (by simp)
    | packed =>
      exact ((traces_members h).andThen fun extents => traces_pure _) t ht |>.congr (by simp)
    | optimized =>
      have hextent : ∀ n ∈ names, Traces (Memory.Known r .optimized) (·.searches) (r.LeadsTo n)
          (extentOf n) := fun n hn => traces_leadsTo (h n hn)
      exact ((traces_search hwell hextent).andThen fun found => traces_pure _) t ht |>.congr
        (by simp)
  | union names =>
    refine traces_requireMembers fun _ => ?_
    simp only [Registry.holds_union_iff]
    exact (traces_members h).andThen fun extents => traces_lift _

include hwell h in
theorem traces_alignmentWith : Traces (Memory.Known r p) (·.searches)
    (fun members => p = .optimized ∧ r.Holds d members)
    (alignmentWith limit (some p) extentOf d) := by
  cases d with
  | atomic size alignment =>
    intro t ht
    exact tracesFrom_pure ht alignment fun _ hmembers =>
      absurd hmembers.2 Registry.not_holds_atomic
  | struct names =>
    refine traces_requireMembers fun hnames t ht => ?_
    simp only [Registry.holds_struct_iff]
    have hfirst := h _ (Footprint.headD_mem hnames "")
    cases p with
    | unpacked =>
      exact (hfirst.andThen fun e => traces_pure _) t ht |>.congr (by simp [Registry.Brings])
    | packed =>
      exact (hfirst.andThen fun e => traces_pure _) t ht |>.congr (by simp [Registry.Brings])
    | optimized =>
      have hextent : ∀ n ∈ names, Traces (Memory.Known r .optimized) (·.searches) (r.LeadsTo n)
          (extentOf n) := fun n hn => traces_leadsTo (h n hn)
      refine ((traces_search hwell hextent t ht).bind ?_ fun _ => (or_self_iff).symm).congr
        (by simp)
      intro found mid _ hrun _ hmid hcovers
      have hhead := hmid.layered.head_mem (mem_of_search hrun)
      refine TracesFrom.widen ((hextent _ hhead).andThen (fun e => traces_pure _) mid hmid) ?_
        hcovers
      exact fun members hleads => Or.inl ⟨_, hhead, hleads⟩
  | union names =>
    refine traces_requireMembers fun _ => ?_
    simp only [Registry.holds_union_iff]
    exact (traces_members h).andThen fun extents => traces_lift _

end

/-! ## Names -/

section

variable {limit : DigitLimit} {p : Packing} {r : Registry} (hwell : WellFormed r.entries)

include hwell in
/-- A definition is measured, and the finding is remembered for its name. -/
theorem traces_measured {name : String} {d : Definition} (hd : r.lookup? name = some d)
    {known : String → Work Extent}
    (hknown : ∀ n ∈ d.references,
      Traces (Memory.Known r p) (·.searches) (r.Brings p n) (known n)) :
    Traces (Memory.Known r p) (·.searches) (r.Brings p name)
      (do
        let size ← sizeWith limit (some p) known d
        let alignment ← alignmentWith limit (some p) known d
        change fun m => m.rememberExtent name ⟨size, alignment⟩
        return ⟨size, alignment⟩ : Work Extent) := by
  have hbrings : ∀ members, r.Brings p name members ↔ p = .optimized ∧ r.Holds d members :=
    fun members => and_congr_right fun _ => Registry.leadsTo_iff_holds hd
  intro t ht
  refine TracesFrom.congr ?_ hbrings
  refine (traces_sizeWith hwell hknown t ht).bind ?_ fun _ => (or_self_iff).symm
  intro size mid _ _ _ hmid _
  refine (traces_alignmentWith hwell hknown mid hmid).bind ?_ fun _ => (or_self_iff).symm
  intro alignment mid _ _ _ hmid hcovers
  have hcovers' : Covers (·.searches) (r.Brings p name) mid.state :=
    fun members hmembers => hcovers members ((hbrings members).mp hmembers)
  -- Remembering what a name takes finds no struct, and what the name brings was found before.
  exact ⟨[], ⟨rfl, (List.append_nil _).symm, fun _ hmem => by cases hmem⟩,
    hmid.rememberExtent _ hcovers', fun _ _ => hcovers⟩

include hwell in
theorem traces_findExtent (newer : List Entry) {entries : List Entry}
    (hentries : r.entries = newer ++ entries) (name : String) :
    Traces (Memory.Known r p) (·.searches) (r.Brings p name)
      (findExtent limit (some p) entries name) := by
  induction entries generalizing newer name with
  | nil => exact fun t ht => tracesFrom_throw ht _
  | cons e older ih =>
    have holder : r.entries = (newer ++ [e]) ++ older := by simp [hentries]
    unfold findExtent
    by_cases hname : e.name = name
    · subst hname
      rw [if_pos rfl]
      have hd : r.lookup? e.name = some e.definition := by
        refine (hwell.definitionIn?_eq_some_iff _ _).mpr ?_
        rw [hentries]
        exact List.mem_append_right _ List.mem_cons_self
      exact traces_measured hwell hd fun n _ => traces_remembered (ih (newer ++ [e]) holder n)
    · rw [if_neg hname]
      exact ih (newer ++ [e]) holder name

include hwell in
theorem traces_extent (name : String) : Traces (Memory.Known r p) (·.searches) (r.Brings p name)
    (extent limit (some p) r name) :=
  traces_remembered (traces_findExtent hwell [] rfl name)

include hwell in
theorem traces_size (d : Definition) : Traces (Memory.Known r p) (·.searches)
    (fun members => p = .optimized ∧ r.Holds d members) (size limit (some p) r d) :=
  traces_sizeWith hwell fun n _ => traces_extent hwell n

include hwell in
theorem traces_alignment (d : Definition) : Traces (Memory.Known r p) (·.searches)
    (fun members => p = .optimized ∧ r.Holds d members) (alignment limit (some p) r d) :=
  traces_alignmentWith hwell fun n _ => traces_extent hwell n

include hwell in
theorem traces_ordering (names : List String) :
    Traces (Memory.Known r .optimized) (·.searches)
      (fun members => r.Nests names members ∨ members = names) (ordering limit r names) :=
  traces_search hwell fun n _ => traces_leadsTo (traces_extent hwell n)

end

end Strategy

end DataLayout
