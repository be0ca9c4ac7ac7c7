-- The laws of padding. Without padding every type is smallest, whatever is nested in it and
-- however its members are ordered. What a packing adds to that is never more than the loss,
-- and the loss is never the whole size.
import Mathlib.Order.Bounds.Basic
import DataLayout.Proofs.Totality

namespace DataLayout

open Text

/-! ## Sizes without padding -/

theorem sizeWithoutPadding_perm {members others : List Extent} (h : members.Perm others) :
    sizeWithoutPadding members = sizeWithoutPadding others := by
  induction h with
  | nil => rfl
  | cons e _ ih => simp only [sizeWithoutPadding, ih]
  | swap e e' rest =>
    simp only [sizeWithoutPadding]
    omega
  | trans _ _ ih ih' => exact ih.trans ih'

theorem sizeWithoutPadding_le_of_sublist {members others : List Extent}
    (hsub : members.Sublist others) (h : ∀ e ∈ others, e.Positive) :
    sizeWithoutPadding members ≤ sizeWithoutPadding others := by
  induction hsub with
  | slnil => exact Int.le_refl 0
  | cons e _ ih =>
    have hrest := ih fun e' he' => h e' (List.mem_cons_of_mem _ he')
    have hsize := (h e List.mem_cons_self).1
    simp only [sizeWithoutPadding]
    omega
  | cons_cons e _ ih =>
    have hrest := ih fun e' he' => h e' (List.mem_cons_of_mem _ he')
    simp only [sizeWithoutPadding]
    omega

theorem sizeWithoutPadding_map_le {names : List String} {small large : String → Extent}
    (h : ∀ n ∈ names, (small n).size ≤ (large n).size) :
    sizeWithoutPadding (names.map small) ≤ sizeWithoutPadding (names.map large) := by
  induction names with
  | nil => exact Int.le_refl 0
  | cons n rest ih =>
    have hfirst := h n List.mem_cons_self
    have hrest := ih fun m hm => h m (List.mem_cons_of_mem _ hm)
    simp only [List.map_cons, sizeWithoutPadding]
    omega

/-- The best ordering takes at least what its members take without padding. -/
theorem sizeWithoutPadding_le_bestOrdering {members : List Member} {best : Ordered}
    (h : bestOrdering members = .ok best) (hmembers : ∀ m ∈ members, m.extent.Positive) :
    sizeWithoutPadding (members.map (·.extent)) ≤ best.size := by
  have hperm := bestOrdering_perm h
  have hpositive : ∀ e ∈ best.members.map (·.extent), e.Positive :=
    List.forall_mem_map.mpr fun m hm => hmembers m (hperm.mem_iff.mp hm)
  obtain ⟨size, hsize, hle⟩ := sizeInOrder_of_positive hpositive
  rw [(bestOrdering_mem h).2] at hsize
  cases hsize
  rw [← sizeWithoutPadding_perm (hperm.map (·.extent))]
  exact hle

namespace Footprint

/-! ## One definition -/

section

variable {f : String → Except Failure Extent} {taken : String → Extent} {names : List String}
  (hnames : names ≠ []) (h : Measures f taken names)

include hnames h in
theorem Measures.sizeOf_unpacked (limit : DigitLimit) :
    sizeOf limit .unpacked f (.struct names) = sizeInOrder (names.map taken) := by
  simp only [sizeOf, requireMembers_of_ne_nil hnames, h.membersOf_eq, ok_bind, List.map_map,
    Function.comp_def]

include hnames h in
theorem Measures.sizeOf_packed (limit : DigitLimit) :
    sizeOf limit .packed f (.struct names) = .ok (sizeWithoutPadding (names.map taken)) := by
  simp only [sizeOf, requireMembers_of_ne_nil hnames, h.membersOf_eq, ok_bind, List.map_map,
    Function.comp_def]
  rfl

include hnames h in
/-- A struct takes at least what its members take, and without padding no more. -/
theorem Measures.sizeOf_struct {p : Packing} {size : Int}
    (hsize : sizeOf .unlimited p f (.struct names) = .ok size) :
    sizeWithoutPadding (names.map taken) ≤ size ∧
      (p = .packed → size = sizeWithoutPadding (names.map taken)) := by
  have hpositive : ∀ e ∈ names.map taken, e.Positive :=
    List.forall_mem_map.mpr fun n hn => (h n hn).2
  cases p with
  | unpacked =>
    rw [h.sizeOf_unpacked hnames] at hsize
    obtain ⟨size', hsize', hle⟩ := sizeInOrder_of_positive hpositive
    rw [hsize'] at hsize
    cases hsize
    exact ⟨hle, fun hpacked => by cases hpacked⟩
  | packed =>
    rw [h.sizeOf_packed hnames] at hsize
    cases hsize
    exact ⟨Int.le_refl _, fun _ => rfl⟩
  | optimized =>
    simp only [sizeOf, requireMembers_of_ne_nil hnames, h.membersOf_eq, ok_bind] at hsize
    obtain ⟨best, hbest, hsize⟩ := bind_eq_ok_iff.mp hsize
    cases hsize
    have hle := sizeWithoutPadding_le_bestOrdering (searchAmong_eq_ok_iff.mp hbest).1 h.positive
    rw [List.map_map] at hle
    exact ⟨hle, fun hpacked => by cases hpacked⟩

end

section

variable {f g : String → Except Failure Extent} {packed taken : String → Extent}
  {older : List Entry} {d : Definition} (p : Packing) (hd : d.Fits older)
  (hf : Measures f packed d.references) (hg : Measures g taken d.references)
  (hle : ∀ n ∈ d.references, (packed n).size ≤ (taken n).size)

include hd hf hg hle in
/-- Where no member is smaller than packed, the whole is not smaller than packed. -/
theorem sizeOf_packed_le {small size : Int} (hsmall : sizeOf .unlimited .packed f d = .ok small)
    (hsize : sizeOf .unlimited p g d = .ok size) : small ≤ size := by
  cases d with
  | atomic size' alignment =>
    cases hsmall
    cases hsize
    exact Int.le_refl _
  | struct names =>
    have hpacked : Measures f packed names := hf
    have htaken : Measures g taken names := hg
    rw [(hpacked.sizeOf_struct hd.1 hsmall).2 rfl]
    calc sizeWithoutPadding (names.map packed)
        ≤ sizeWithoutPadding (names.map taken) := sizeWithoutPadding_map_le hle
      _ ≤ size := (htaken.sizeOf_struct hd.1 hsize).1
  | union names =>
    have hpacked : Measures f packed names := hf
    have htaken : Measures g taken names := hg
    obtain ⟨small', hsmall', ⟨n, hn, hreach⟩, _⟩ := hpacked.sizeOf_union hd.1 .unlimited .packed
    obtain ⟨size', hsize', _, hall⟩ := htaken.sizeOf_union hd.1 .unlimited p
    rw [hsmall'] at hsmall
    rw [hsize'] at hsize
    cases hsmall
    cases hsize
    calc small
        = (packed n).size := hreach.symm
      _ ≤ (taken n).size := hle n hn
      _ ≤ size := hall n hn

end

end Footprint

/-! ## Registered names -/

namespace Registry

open Footprint

section

variable {r : Registry} (h : WellFormed r.entries) (p : Packing)

include h in
theorem sizeOf_packed_le {d : Definition} (hd : d.Fits r.entries)
    (hle : ∀ n ∈ d.references, (r.taken .packed n).size ≤ (r.taken p n).size) {small size : Int}
    (hsmall : r.sizeOf .unlimited .packed d = .ok small)
    (hsize : r.sizeOf .unlimited p d = .ok size) : small ≤ size :=
  Footprint.sizeOf_packed_le p hd (measures_of_fits h .packed hd) (measures_of_fits h p hd) hle
    hsmall hsize

include h in
/-- No name is smaller than packed. -/
theorem taken_packed_le {name : String} (hname : (r.lookup? name).isSome) :
    (r.taken .packed name).size ≤ (r.taken p name).size := by
  induction name using (wellFounded_refers h).induction with
  | _ name ih =>
    obtain ⟨d, hd⟩ := Option.isSome_iff_exists.mp hname
    have hfits := h.fits_of_lookup hd
    exact sizeOf_packed_le h p hfits
      (fun n hn => ih n ⟨d, hd, hn⟩ (hfits.isSome_of_mem hn))
      (taken_of_lookup h .packed hd).1 (taken_of_lookup h p hd).1

end

end Registry

/-! ## The law -/

theorem Definition.exists_of_kind_union (d : Definition) (h : d.kind = .union) :
    ∃ variants, d = .union variants := by
  cases d with
  | atomic size alignment => cases h
  | struct names => cases h
  | union variants => exact ⟨variants, rfl⟩

/-- What the variants lose that reach the size of their union. -/
def lossesReaching (taken : Packing → String → Extent) (p : Packing) (size : Int)
    (variants : List String) : Set Int :=
  {loss | ∃ n ∈ variants, (taken p n).size = size ∧
    loss = (taken p n).size - (taken .packed n).size}

/-- How a layout of a definition stands to its packed layout. Only a union may lose more than
its padding, since it is compared with the variants that reach its size. -/
structure Pads (taken : Packing → String → Extent) (p : Packing) (d : Definition)
    (packed l : ModeLayout) : Prop where
  packed_le : packed.size ≤ l.size
  padding_le_loss : l.size - packed.size ≤ l.loss
  loss_lt_size : l.loss < l.size
  loss_eq : d.kind ≠ .union → l.loss = l.size - packed.size
  least_loss : ∀ variants, d = .union variants →
    IsLeast (lossesReaching taken p l.size variants) l.loss

/-- Packed, nothing is lost. -/
theorem Pads.packed_loss {taken : Packing → String → Extent} {d : Definition}
    {packed : ModeLayout} (h : Pads taken .packed d packed packed) : packed.loss = 0 := by
  by_cases hkind : d.kind = .union
  · obtain ⟨variants, rfl⟩ := d.exists_of_kind_union hkind
    obtain ⟨n, _, _, hloss⟩ := (h.least_loss variants rfl).1
    omega
  · have := h.loss_eq hkind
    omega

namespace Registry

open Footprint

variable {r : Registry} (h : WellFormed r.entries) (p : Packing)

include h in
theorem pads_of_fits {d : Definition} (hd : d.Fits r.entries) {packed l : ModeLayout}
    (hpacked : r.layoutOf .unlimited .packed d = .ok packed)
    (hl : r.layoutOf .unlimited p d = .ok l) : Pads r.taken p d packed l := by
  obtain ⟨_, hpositive, _, hsmall, _, _, heq⟩ := layoutOf_of_fits h .packed hd
  rw [hpacked] at heq
  cases heq
  obtain ⟨_, _, _, hsize, _, hloss, heq⟩ := layoutOf_of_fits h p hd
  rw [hl] at heq
  cases heq
  have hle : packed.size ≤ l.size :=
    sizeOf_packed_le h p hd (fun n hn => taken_packed_le h p (hd.isSome_of_mem hn)) hsmall hsize
  by_cases hkind : d.kind = .union
  · obtain ⟨variants, rfl⟩ := d.exists_of_kind_union hkind
    obtain ⟨best, hbest, ⟨n, hn, hreach, hpacks⟩, hmost⟩ := lossOf_union h p hd hsize
    rw [hloss] at hbest
    have hlost : l.loss = l.size - best := Except.ok.inj hbest
    have hmeasures : Measures (r.extent .unlimited .packed) (r.taken .packed) variants :=
      measures_of_fits h .packed hd
    -- The packed union takes at least what each packed variant takes.
    have hunion : best ≤ packed.size := by
      obtain ⟨size, hlargest, _, hall⟩ := hmeasures.sizeOf_union hd.1 .unlimited .packed
      unfold Registry.sizeOf at hsmall
      rw [hlargest] at hsmall
      cases hsmall
      exact hpacks ▸ hall n hn
    have hone : 1 ≤ best := hpacks ▸ (hmeasures n hn).2.1
    refine ⟨hle, by omega, by omega, fun hne => absurd rfl hne, ?_⟩
    rintro _ ⟨rfl⟩
    refine ⟨⟨n, hn, hreach, by omega⟩, ?_⟩
    rintro loss ⟨m, hm, hreaches, rfl⟩
    have := hmost m hm hreaches
    omega
  · have hlost := lossOf_of_kind_ne_union p hkind hsize hsmall
    rw [hloss] at hlost
    have hlost' : l.loss = l.size - packed.size := Except.ok.inj hlost
    refine ⟨hle, by omega, by omega, fun _ => hlost', ?_⟩
    rintro variants rfl
    exact absurd rfl hkind

end Registry

/-- Packed is smallest and loses nothing. After any run, every engine gives each definition
that fits, as every registered one does, a layout under each packing. It is no smaller than the
packed one, its padding is at most its loss, and its loss is less than its size. What is no
union loses just its padding. A union loses the least of what its variants lose that reach its
size, and there always are some. -/
theorem padding_is_at_most_the_loss (steps : List Workshop.Step) :
    let w := Workshop.run .unlimited steps
    (∀ name d, w.registry.lookup? name = some d → d.Fits w.registry.entries) ∧
      ∀ e ∈ w.engines, ∃ taken : Packing → String → Extent,
        (∀ name ∈ w.registry.names, ∀ p,
          w.answer .unlimited e (.member p name) = .ok (taken p name)) ∧
        ∀ d : Definition, d.Fits w.registry.entries → ∃ layout : Packing → ModeLayout,
          (layout .packed).loss = 0 ∧ ∀ p, w.LaysOut e p d (layout p) ∧
            Pads taken p d (layout .packed) (layout p) := by
  intro w
  have hw : w.Sound .unlimited := Workshop.sound_run .unlimited steps
  refine ⟨fun name d hd => hw.wellFormed.fits_of_lookup hd, ?_⟩
  intro e hmem
  have he := hw.engines e hmem
  refine ⟨w.registry.taken, ?_, ?_⟩
  · exact fun name hname p => hw.answer_member he p hname
  · intro d hd
    have hlayouts : ∀ p, ∃ l, w.registry.layoutOf .unlimited p d = .ok l := fun p =>
      let ⟨l, _, _, _, _, _, hl⟩ := Registry.layoutOf_of_fits hw.wellFormed p hd
      ⟨l, hl⟩
    choose layout hlayout using hlayouts
    have hpads := fun p =>
      Registry.pads_of_fits hw.wellFormed p hd (hlayout .packed) (hlayout p)
    exact ⟨layout, (hpads .packed).packed_loss,
      fun p => ⟨hw.laysOut he p hd (hlayout p), hpads p⟩⟩

/-- Three numbers, a struct with padding in front of its second member, and one engine. -/
def looseSteps : List Workshop.Step :=
  [.register ⟨"char", .atomic (.integer 1) (.integer 1)⟩,
    .register ⟨"int", .atomic (.integer 4) (.integer 4)⟩,
    .register ⟨"word", .atomic (.integer 8) (.integer 8)⟩,
    .register ⟨"loose", .struct ["char", "int", "char"]⟩, .newEngine]

/-- The struct reaches the size of this union with 6 bytes of its own, the number does not, and
is the largest one packed. -/
theorem the_union_loses_more_than_its_padding :
    .empty ∈ (Workshop.run .unlimited looseSteps).engines ∧
      (Definition.union ["loose", "word"]).Fits
        (Workshop.run .unlimited looseSteps).registry.entries ∧
      ∃ taken packed l, Pads taken .unpacked (.union ["loose", "word"]) packed l ∧
        packed.size = 8 ∧ l.size = 9 ∧ l.loss = 3 := by
  have hengine : .empty ∈ (Workshop.run .unlimited looseSteps).engines := by decide
  have hfits : (Definition.union ["loose", "word"]).Fits
      (Workshop.run .unlimited looseSteps).registry.entries := ⟨by decide, by decide⟩
  obtain ⟨_, hlaws⟩ := padding_is_at_most_the_loss looseSteps
  obtain ⟨taken, _, hlayouts⟩ := hlaws .empty hengine
  obtain ⟨layout, _, hlayout⟩ := hlayouts _ hfits
  obtain ⟨hpacked, _⟩ := hlayout .packed
  obtain ⟨hunpacked, hpads⟩ := hlayout .unpacked
  refine ⟨hengine, hfits, taken, layout .packed, layout .unpacked, hpads, ?_, ?_, ?_⟩
  · exact Scalar.integer.inj (Except.ok.inj (hpacked.size_eq.symm.trans rfl))
  · exact Scalar.integer.inj (Except.ok.inj (hunpacked.size_eq.symm.trans rfl))
  · exact Scalar.integer.inj (Except.ok.inj (hunpacked.loss_eq.symm.trans rfl))

end DataLayout
