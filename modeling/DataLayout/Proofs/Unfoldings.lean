-- The laws of unfolding. A type unfolds to the atomic types that it consists of, with one variant
-- chosen at each occurrence of a union. Packed it takes as much as its largest unfolding, and where
-- no union is reached there is only one. No alignment comes into it.
import Mathlib.Algebra.BigOperators.Group.List.Basic
import Mathlib.Algebra.Group.Int.Defs
import DataLayout.Proofs.Leaves
import DataLayout.Proofs.Padding

namespace DataLayout

open Text

theorem sizeWithoutPadding_eq_sum (extents : List Extent) :
    sizeWithoutPadding extents = (extents.map (·.size)).sum := by
  induction extents with
  | nil => rfl
  | cons e rest ih => rw [sizeWithoutPadding, ih, List.map_cons, List.sum_cons]

/-! ## Definitions without alignments -/

/-- A definition with all alignments of atomic types made the same. -/
def Definition.unaligned : Definition → Definition
  | .atomic size _ => .atomic size 1
  | d => d

theorem Definition.eq_of_unaligned {d d' : Definition} (h : d.unaligned = d'.unaligned)
    (hd : d.kind ≠ .atomic) : d = d' := by
  cases d with
  | atomic size alignment => exact absurd rfl hd
  | _ =>
    cases d' with
    | atomic size alignment => cases h
    | _ => exact h

/-! ## Unfoldings -/

/-- A definition unfolds to atomic types. A struct unfolds to those of all its members, one
occurrence after the other, and a union to those of one of its variants. -/
inductive Registry.Unfolds (r : Registry) : Definition → List Extent → Prop
  | atomic (size alignment : Int) : Unfolds r (.atomic size alignment) [⟨size, alignment⟩]
  | noMember : Unfolds r (.struct []) []
  | member {n : String} {rest : List String} {inner : Definition} {leaves others : List Extent}
      (hinner : r.lookup? n = some inner) (hfirst : Unfolds r inner leaves)
      (hrest : Unfolds r (.struct rest) others) : Unfolds r (.struct (n :: rest)) (leaves ++ others)
  | variant {n : String} {names : List String} {inner : Definition} {leaves : List Extent}
      (hn : n ∈ names) (hinner : r.lookup? n = some inner) (h : Unfolds r inner leaves) :
      Unfolds r (.union names) leaves

namespace Registry

/-- The sums of the sizes of all unfoldings of a definition. -/
def unfoldedSizes (r : Registry) (d : Definition) : Set Int :=
  {size | ∃ leaves, r.Unfolds d leaves ∧ (leaves.map (·.size)).sum = size}

/-- A definition is no union, and no reference leads to one. -/
def UnionFree (r : Registry) (d : Definition) : Prop :=
  d.kind ≠ .union ∧
    ∀ name, r.Reaches d name → ∀ inner, r.lookup? name = some inner → inner.kind ≠ .union

section

variable {r : Registry} {d inner : Definition} {n : String} {names rest : List String}

theorem mem_unfoldedSizes_atomic {size alignment other : Int} :
    other ∈ r.unfoldedSizes (.atomic size alignment) ↔ other = size := by
  constructor
  · rintro ⟨_, ⟨⟩, rfl⟩
    simp
  · rintro rfl
    exact ⟨_, .atomic other alignment, by simp⟩

theorem mem_unfoldedSizes_nil {size : Int} :
    size ∈ r.unfoldedSizes (.struct []) ↔ size = 0 := by
  constructor
  · rintro ⟨_, ⟨⟩, rfl⟩
    rfl
  · rintro rfl
    exact ⟨[], .noMember, rfl⟩

/-- What a struct unfolds to is chosen for each occurrence of a member on its own. -/
theorem mem_unfoldedSizes_cons (hinner : r.lookup? n = some inner) {size : Int} :
    size ∈ r.unfoldedSizes (.struct (n :: rest)) ↔
      ∃ a ∈ r.unfoldedSizes inner, ∃ b ∈ r.unfoldedSizes (.struct rest), a + b = size := by
  constructor
  · rintro ⟨_, h, rfl⟩
    cases h with
    | member hinner' hfirst hrest =>
      rw [hinner] at hinner'
      cases hinner'
      exact ⟨_, ⟨_, hfirst, rfl⟩, _, ⟨_, hrest, rfl⟩, by simp⟩
  · rintro ⟨_, ⟨leaves, hfirst, rfl⟩, _, ⟨others, hrest, rfl⟩, rfl⟩
    exact ⟨_, .member hinner hfirst hrest, by simp⟩

theorem mem_unfoldedSizes_union {size : Int} :
    size ∈ r.unfoldedSizes (.union names) ↔
      ∃ n ∈ names, ∃ inner, r.lookup? n = some inner ∧ size ∈ r.unfoldedSizes inner := by
  constructor
  · rintro ⟨leaves, h, rfl⟩
    cases h with
    | variant hn hinner h => exact ⟨_, hn, _, hinner, leaves, h, rfl⟩
  · rintro ⟨n, hn, inner, hinner, leaves, h, rfl⟩
    exact ⟨leaves, .variant hn hinner h, rfl⟩

/-! ## Without unions -/

theorem UnionFree.member (h : r.UnionFree d) (hn : n ∈ d.references)
    (hinner : r.lookup? n = some inner) : r.UnionFree inner :=
  ⟨h.2 n (reaches_of_mem hn) inner hinner, fun name hname => h.2 name (hname.of_member hn hinner)⟩

/-- Where all members are free of unions, so is a definition that is none. -/
theorem unionFree_of_member (hd : d.kind ≠ .union) (h : ∀ n ∈ d.references, ∀ inner,
    r.lookup? n = some inner → r.UnionFree inner) : r.UnionFree d := by
  refine ⟨hd, fun name ⟨n, hn, hpath⟩ last hlast => ?_⟩
  rcases hpath.cases_head with rfl | ⟨next, ⟨inner, hinner, hnext⟩, hrest⟩
  · exact (h n hn last hlast).1
  · exact (h n hn inner hinner).2 name ⟨next, hnext, hrest⟩ last hlast

theorem UnionFree.tail (h : r.UnionFree (.struct (n :: rest))) : r.UnionFree (.struct rest) :=
  ⟨Kind.noConfusion, fun name ⟨m, hm, hpath⟩ => h.2 name ⟨m, List.mem_cons_of_mem n hm, hpath⟩⟩

/-- Without unions nothing is chosen, so there is only one unfolding. -/
theorem Unfolds.eq_of_unionFree (hd : r.UnionFree d) {leaves others : List Extent}
    (h : r.Unfolds d leaves) (hothers : r.Unfolds d others) : leaves = others := by
  induction h generalizing others with
  | atomic size alignment =>
    cases hothers
    rfl
  | noMember =>
    cases hothers
    rfl
  | member hinner _ _ ihfirst ihrest =>
    cases hothers with
    | member hinner' hfirst' hrest' =>
      rw [hinner] at hinner'
      cases hinner'
      rw [ihfirst (hd.member List.mem_cons_self hinner) hfirst', ihrest hd.tail hrest']
  | variant => exact absurd rfl hd.1

/-- Without unions a definition unfolds to all its leaves and to nothing else. -/
theorem Unfolds.mem_iff_hasLeaf (hd : r.UnionFree d) {leaves : List Extent}
    (h : r.Unfolds d leaves) (leaf : Extent) : leaf ∈ leaves ↔ r.HasLeaf d leaf := by
  induction h with
  | atomic size alignment => rw [List.mem_singleton, hasLeaf_atomic_iff]
  | noMember => rw [hasLeaf_nil_iff, List.mem_nil_iff]
  | member hinner _ _ ihfirst ihrest =>
    rw [List.mem_append, ihfirst (hd.member List.mem_cons_self hinner), ihrest hd.tail,
      hasLeaf_cons_iff hinner]
  | variant => exact absurd rfl hd.1

/-! ## Packed sizes -/

/-- Where a number is the largest for each member, their sum is the largest for the struct. -/
theorem isGreatest_struct {f : String → Int} (h : ∀ n ∈ names, ∃ inner,
    r.lookup? n = some inner ∧ IsGreatest (r.unfoldedSizes inner) (f n)) :
    IsGreatest (r.unfoldedSizes (.struct names)) (names.map f).sum := by
  induction names with
  | nil => exact ⟨mem_unfoldedSizes_nil.mpr rfl, fun _ hsize => (mem_unfoldedSizes_nil.mp hsize).le⟩
  | cons n rest ih =>
    obtain ⟨⟨inner, hinner, hfirst⟩, hrest⟩ := List.forall_mem_cons.mp h
    have hothers := ih hrest
    rw [List.map_cons, List.sum_cons]
    constructor
    · exact (mem_unfoldedSizes_cons hinner).mpr ⟨_, hfirst.1, _, hothers.1, rfl⟩
    · intro size hsize
      obtain ⟨a, ha, b, hb, rfl⟩ := (mem_unfoldedSizes_cons hinner).mp hsize
      exact Int.add_le_add (hfirst.2 ha) (hothers.2 hb)

theorem isGreatest_union {f : String → Int} (h : ∀ n ∈ names, ∃ inner,
    r.lookup? n = some inner ∧ IsGreatest (r.unfoldedSizes inner) (f n)) {size : Int}
    (hmem : ∃ n ∈ names, f n = size) (hle : ∀ n ∈ names, f n ≤ size) :
    IsGreatest (r.unfoldedSizes (.union names)) size := by
  constructor
  · obtain ⟨n, hn, rfl⟩ := hmem
    obtain ⟨inner, hinner, hgreatest⟩ := h n hn
    exact mem_unfoldedSizes_union.mpr ⟨n, hn, inner, hinner, hgreatest.1⟩
  · intro other hother
    obtain ⟨n, hn, inner, hinner, hsize⟩ := mem_unfoldedSizes_union.mp hother
    obtain ⟨_, hinner', hgreatest⟩ := h n hn
    rw [hinner] at hinner'
    cases hinner'
    exact (hgreatest.2 hsize).trans (hle n hn)

end

open Footprint

section

variable {r : Registry} (h : WellFormed r.entries) {names : List String}

include h in
theorem sizeOf_packed_struct (hd : (Definition.struct names).Fits r.entries) :
    r.sizeOf .unlimited .packed (.struct names) =
      .ok (names.map fun n => (r.taken .packed n).size).sum := by
  have hsize := Measures.sizeOf_packed hd.1 (measures_of_fits h .packed hd) .unlimited
  rwa [sizeWithoutPadding_eq_sum, List.map_map] at hsize

include h in
theorem sizeOf_packed_union (hd : (Definition.union names).Fits r.entries) : ∃ size,
    r.sizeOf .unlimited .packed (.union names) = .ok size ∧
      (∃ n ∈ names, (r.taken .packed n).size = size) ∧
      ∀ n ∈ names, (r.taken .packed n).size ≤ size :=
  Measures.sizeOf_union hd.1 (measures_of_fits h .packed hd) .unlimited .packed

include h in
/-- Packed, a definition takes as much as its largest unfolding. -/
theorem isGreatest_of_sizeOf_packed {d : Definition} (hd : d.Fits r.entries) {size : Int}
    (hsize : r.sizeOf .unlimited .packed d = .ok size) : IsGreatest (r.unfoldedSizes d) size := by
  induction d, hd using fits_induction h generalizing size with
  | step d hd ih =>
    have hmembers : ∀ n ∈ d.references, ∃ inner, r.lookup? n = some inner ∧
        IsGreatest (r.unfoldedSizes inner) (r.taken .packed n).size := by
      intro n hn
      obtain ⟨inner, hinner⟩ := hd.exists_of_mem hn
      exact ⟨inner, hinner, ih n hn inner hinner (taken_of_lookup h .packed hinner).1⟩
    cases d with
    | atomic size alignment =>
      cases hsize
      exact ⟨mem_unfoldedSizes_atomic.mpr rfl, fun _ hother =>
        (mem_unfoldedSizes_atomic.mp hother).le⟩
    | struct names =>
      rw [sizeOf_packed_struct h hd] at hsize
      cases hsize
      exact isGreatest_struct hmembers
    | union names =>
      obtain ⟨_, hlargest, hmem, hle⟩ := sizeOf_packed_union h hd
      rw [hlargest] at hsize
      cases hsize
      exact isGreatest_union hmembers hmem hle

end

/-! ## Other alignments -/

/-- A definition is the same in another registry but for alignments, and so is each definition that
it reaches. -/
def Realigns (r : Registry) (d : Definition) (other : Registry) (d' : Definition) : Prop :=
  d.unaligned = d'.unaligned ∧ ∀ name, r.Reaches d name →
    (r.lookup? name).map Definition.unaligned = (other.lookup? name).map Definition.unaligned

section

variable {r other : Registry} {d d' : Definition}

theorem Realigns.member (h : r.Realigns d other d') {n : String} (hn : n ∈ d.references)
    {inner : Definition} (hinner : r.lookup? n = some inner) :
    ∃ inner', other.lookup? n = some inner' ∧ r.Realigns inner other inner' := by
  have hsame := h.2 n (reaches_of_mem hn)
  rw [hinner, Option.map_some, eq_comm, Option.map_eq_some_iff] at hsame
  obtain ⟨inner', hinner', heq⟩ := hsame
  exact ⟨inner', hinner', heq.symm, fun name hname => h.2 name (hname.of_member hn hinner)⟩

/-- Other alignments make no difference to a packed size. -/
theorem sizeOf_packed_of_realigns (h : WellFormed r.entries) (hother : WellFormed other.entries)
    (hd : d.Fits r.entries) (hd' : d'.Fits other.entries) (hsame : r.Realigns d other d') :
    r.sizeOf .unlimited .packed d = other.sizeOf .unlimited .packed d' := by
  induction d, hd using fits_induction h generalizing d' with
  | step d hd ih =>
    have hmembers : ∀ n ∈ d.references,
        (r.taken .packed n).size = (other.taken .packed n).size := by
      intro n hn
      obtain ⟨inner, hinner⟩ := hd.exists_of_mem hn
      obtain ⟨inner', hinner', hinners⟩ := hsame.member hn hinner
      have heq := ih n hn inner hinner (hother.fits_of_lookup hinner') hinners
      rw [(taken_of_lookup h .packed hinner).1, (taken_of_lookup hother .packed hinner').1] at heq
      exact Except.ok.inj heq
    cases d with
    | atomic size alignment =>
      cases d' with
      | atomic size' alignment' =>
        obtain ⟨rfl, _⟩ := Definition.atomic.inj hsame.1
        rfl
      | struct names => cases hsame.1
      | union names => cases hsame.1
    | struct names =>
      obtain rfl := Definition.eq_of_unaligned hsame.1 Kind.noConfusion
      have hsizes : names.map (fun n => (r.taken .packed n).size) =
          names.map fun n => (other.taken .packed n).size := List.map_congr_left hmembers
      rw [sizeOf_packed_struct h hd, sizeOf_packed_struct hother hd', hsizes]
    | union names =>
      obtain rfl := Definition.eq_of_unaligned hsame.1 Kind.noConfusion
      obtain ⟨size, hsize, ⟨n, hn, rfl⟩, hle⟩ := sizeOf_packed_union h hd
      obtain ⟨size', hsize', ⟨n', hn', rfl⟩, hle'⟩ := sizeOf_packed_union hother hd'
      -- Each of the two largest variants is no larger than the other one.
      have hless := hmembers n hn ▸ hle' n hn
      have hless' := hmembers n' hn' ▸ hle n' hn'
      rw [hsize, hsize', le_antisymm hless hless']

end

/-! ## No limit on packed sizes -/

section

variable (limit : DigitLimit)

theorem extentIn_packed (entries : List Entry) :
    extentIn limit .packed entries = extentIn .unlimited .packed entries := by
  induction entries with
  | nil => rfl
  | cons e older ih =>
    funext name
    simp only [extentIn, ih]
    cases e.definition <;> rfl

/-- Nothing is written on the way to a packed size, so the limit on numerals makes no difference. -/
theorem sizeOf_packed_unlimited (r : Registry) (d : Definition) :
    r.sizeOf limit .packed d = r.sizeOf .unlimited .packed d := by
  unfold Registry.sizeOf Registry.extent
  rw [extentIn_packed limit]
  cases d <;> rfl

end

end Registry

/-! ## The law -/

/-- All engines give a definition this packed size, and to its names if it is registered. -/
def Workshop.PacksTo (limit : DigitLimit) (w : Workshop) (d : Definition) (size : Int) : Prop :=
  ∀ e ∈ w.engines,
    w.answer limit e (.size .packed (.ofDefinition d)) = .ok (.integer size) ∧
    ∀ name, w.registry.lookup? name = some d →
      ∃ alignment, w.answer limit e (.member .packed name) = .ok ⟨size, alignment⟩

theorem Workshop.Sound.packsTo {limit : DigitLimit} {w : Workshop} (hw : w.Sound limit)
    {d : Definition} {size : Int} (hsize : w.registry.sizeOf .unlimited .packed d = .ok size) :
    w.PacksTo limit d size := by
  intro e hmem
  have he := hw.engines e hmem
  refine ⟨?_, fun name hname => ⟨(w.registry.taken .packed name).alignment, ?_⟩⟩
  · rw [hw.answer_eq he, Question.plain_size, Registry.sizeOf_packed_unlimited, hsize]
    rfl
  · obtain ⟨hextent, _⟩ := Registry.extent_of_registered hw.wellFormed .packed
      (Option.isSome_of_eq_some hname)
    have htaken := (Registry.taken_of_lookup hw.wellFormed .packed hname).1
    rw [hsize] at htaken
    cases htaken
    rw [hw.answer_eq he]
    show Footprint.extentIn limit .packed w.registry.entries name = _
    rw [Registry.extentIn_packed]
    exact hextent

/-- Packed means without padding at any depth. After any run, under any limit, all engines give each
definition that fits, as every registered one does, the largest of the sums of its unfoldings as its
packed size. A definition that reaches no union has one unfolding, which is made of its leaves. In
any other run a definition that differs in alignments only, down to its leaves, has the same packed
size. -/
theorem a_packed_type_takes_its_largest_unfolding (limit : DigitLimit)
    (steps : List Workshop.Step) :
    let w := Workshop.run limit steps
    (∀ name d, w.registry.lookup? name = some d → d.Fits w.registry.entries) ∧
      ∀ d : Definition, d.Fits w.registry.entries → ∃ size,
        w.PacksTo limit d size ∧
        IsGreatest (w.registry.unfoldedSizes d) size ∧
        (w.registry.UnionFree d → ∃ leaves : List Extent,
          (∀ others, w.registry.Unfolds d others ↔ others = leaves) ∧
          (∀ leaf, leaf ∈ leaves ↔ w.registry.HasLeaf d leaf) ∧
          size = (leaves.map (·.size)).sum) ∧
        ∀ (limit' : DigitLimit) (others : List Workshop.Step) (d' : Definition),
          let v := Workshop.run limit' others
          d'.Fits v.registry.entries → w.registry.Realigns d v.registry d' →
            v.PacksTo limit' d' size := by
  intro w
  have hw : w.Sound limit := Workshop.sound_run limit steps
  refine ⟨fun name d hd => hw.wellFormed.fits_of_lookup hd, fun d hd => ?_⟩
  obtain ⟨size, hsize, _⟩ := Footprint.sizeOf_of_measures .packed hd
    (Registry.measures_of_fits hw.wellFormed .packed hd)
  have hgreatest := Registry.isGreatest_of_sizeOf_packed hw.wellFormed hd hsize
  refine ⟨size, hw.packsTo hsize, hgreatest, fun hfree => ?_, ?_⟩
  · obtain ⟨leaves, hleaves, hsum⟩ := hgreatest.1
    refine ⟨leaves, fun others => ⟨fun hothers => hothers.eq_of_unionFree hfree hleaves, ?_⟩,
      hleaves.mem_iff_hasLeaf hfree, hsum.symm⟩
    rintro rfl
    exact hleaves
  · intro limit' others d' v hd' hsame
    have hv : v.Sound limit' := Workshop.sound_run limit' others
    refine hv.packsTo ?_
    rw [← Registry.sizeOf_packed_of_realigns hw.wellFormed hv.wellFormed hd hd' hsame]
    exact hsize

/-- A letter, a number with some alignment, either of them, two of these around a letter, and one
engine. -/
def eitherSteps (alignment : Int) : List Workshop.Step :=
  [.register ⟨"char", .atomic (.integer 1) (.integer 1)⟩,
    .register ⟨"int", .atomic (.integer 4) (.integer alignment)⟩,
    .register ⟨"either", .union ["char", "int"]⟩,
    .register ⟨"framed", .struct ["either", "char", "either"]⟩, .newEngine]

/-- Two unions around a letter take the number twice, however it is aligned. A letter and a number
have one unfolding. -/
theorem two_unions_around_a_letter_take_nine :
    let w := Workshop.run .standard (eitherSteps 4)
    let framed := Definition.struct ["either", "char", "either"]
    w.PacksTo .standard framed 9 ∧ IsGreatest (w.registry.unfoldedSizes framed) 9 ∧
      (Workshop.run .standard (eitherSteps 8)).PacksTo .standard framed 9 ∧
      ∀ leaves, w.registry.Unfolds (.struct ["char", "int"]) leaves →
        (leaves.map (·.size)).sum = 5 := by
  intro w framed
  obtain ⟨e, he⟩ : ∃ e, e ∈ w.engines := List.exists_mem_of_length_pos (by decide)
  have hentries : ∀ a ∈ [4, 8], (Workshop.run .standard (eitherSteps a)).registry.entries =
      [⟨"framed", framed⟩, ⟨"either", .union ["char", "int"]⟩, ⟨"int", .atomic 4 a⟩,
        ⟨"char", .atomic 1 1⟩] := by decide
  have hanswers : ∀ e ∈ w.engines,
      w.answer .standard e (.size .packed (.ofDefinition framed)) = .ok (.integer 9) ∧
      w.answer .standard e (.size .packed (.ofDefinition (.struct ["char", "int"]))) =
        .ok (.integer 5) := by decide
  obtain ⟨hfits, hlaws⟩ := a_packed_type_takes_its_largest_unfolding .standard (eitherSteps 4)
  obtain ⟨size, hpacks, hgreatest, _, hrealigned⟩ := hlaws framed (hfits "framed" _ (by decide))
  obtain rfl : size = 9 :=
    Scalar.integer.inj (Except.ok.inj ((hpacks e he).1.symm.trans (hanswers e he).1))
  obtain ⟨sum, hpair, _, hfree, _⟩ := hlaws (.struct ["char", "int"]) ⟨by decide, by decide⟩
  obtain rfl : sum = 5 :=
    Scalar.integer.inj (Except.ok.inj ((hpair e he).1.symm.trans (hanswers e he).2))
  have hpairFree : w.registry.UnionFree (.struct ["char", "int"]) := by
    have hatomic : ∀ n ∈ ["char", "int"], ∃ size alignment,
        w.registry.lookup? n = some (.atomic size alignment) := by
      simp [Registry.lookup?, w, hentries 4 (by decide), definitionIn?]
    refine Registry.unionFree_of_member Kind.noConfusion fun n hn inner hinner => ?_
    obtain ⟨size, alignment, hstored⟩ := hatomic n hn
    rw [hstored] at hinner
    cases hinner
    exact Registry.unionFree_of_member Kind.noConfusion fun m hm => by cases hm
  obtain ⟨leaves, honly, _, hsum⟩ := hfree hpairFree
  refine ⟨hpacks, hgreatest, hrealigned .standard (eitherSteps 8) framed ⟨by decide, by decide⟩
    ⟨rfl, fun name _ => ?_⟩, fun others hothers => ?_⟩
  · rw [Registry.lookup?, Registry.lookup?, hentries 4 (by decide), hentries 8 (by decide)]
    simp only [definitionIn?]
    split_ifs <;> rfl
  · rw [(honly others).mp hothers, hsum]

end DataLayout
