-- The laws of leaves, the atomic types that references lead to. Every alignment comes from them:
-- it divides all their common multiples. Packed, a type is aligned as it is unpacked.
import Mathlib.Algebra.Order.Ring.Int
import Mathlib.Data.Nat.Prime.Basic
import DataLayout.Proofs.Optimum
import DataLayout.Proofs.Unions

namespace DataLayout

open Text

/-! ## Powers of two -/

/-- The powers of two. -/
def IsTwoPower (a : Int) : Prop := ∃ k : Nat, a = 2 ^ k

theorem IsTwoPower.pos {a : Int} (h : IsTwoPower a) : 1 ≤ a := by
  obtain ⟨k, rfl⟩ := h
  exact Int.pow_pos (by decide)

/-- Of two powers of two, the smaller one divides the other. -/
theorem IsTwoPower.dvd {a b : Int} (ha : IsTwoPower a) (hb : IsTwoPower b) (h : a ≤ b) :
    a ∣ b := by
  obtain ⟨j, rfl⟩ := ha
  obtain ⟨k, rfl⟩ := hb
  exact pow_dvd_pow 2 ((pow_le_pow_iff_right₀ (by decide)).mp h)

/-- A divisor of a power of two is one itself. -/
theorem IsTwoPower.of_dvd {a b : Int} (hb : IsTwoPower b) (ha : 1 ≤ a) (h : a ∣ b) :
    IsTwoPower a := by
  obtain ⟨k, rfl⟩ := hb
  obtain ⟨m, rfl⟩ := Int.eq_ofNat_of_zero_le (by omega : 0 ≤ a)
  have hdvd : m ∣ 2 ^ k := Int.natCast_dvd_natCast.mp (by simpa using h)
  obtain ⟨j, _, rfl⟩ := (Nat.dvd_prime_pow Nat.prime_two).mp hdvd
  exact ⟨j, by simp⟩

/-! ## Leaves -/

/-- The stored numbers of an atomic type. -/
def Definition.numbers? : Definition → Option Extent
  | .atomic size alignment => some ⟨size, alignment⟩
  | _ => none

namespace Registry

/-- References lead from a definition to a name, through any names between them. -/
def Reaches (r : Registry) (d : Definition) (name : String) : Prop :=
  ∃ n ∈ d.references, Relation.ReflTransGen r.Refers n name

/-- A leaf of a definition, with its stored numbers: an atomic type that the definition is or
reaches. -/
def HasLeaf (r : Registry) (d : Definition) (leaf : Extent) : Prop :=
  d = .atomic leaf.size leaf.alignment ∨
    ∃ name, r.Reaches d name ∧ r.lookup? name = some (.atomic leaf.size leaf.alignment)

section

variable {r : Registry} {d inner : Definition} {n name : String} {rest : List String}
  {leaf : Extent}

theorem reaches_of_mem (hn : n ∈ d.references) : r.Reaches d n := ⟨n, hn, .refl⟩

/-- What is reached from a member is reached. -/
theorem Reaches.of_member (hn : n ∈ d.references) (hinner : r.lookup? n = some inner)
    (h : r.Reaches inner name) : r.Reaches d name := by
  obtain ⟨m, hm, hpath⟩ := h
  exact ⟨n, hn, .head ⟨inner, hinner, hm⟩ hpath⟩

theorem hasLeaf_atomic_iff {size alignment : Int} :
    r.HasLeaf (.atomic size alignment) leaf ↔ leaf = ⟨size, alignment⟩ := by
  constructor
  · rintro (hself | ⟨_, ⟨_, hm, _⟩, _⟩)
    · cases hself
      rfl
    · cases hm
  · rintro rfl
    exact Or.inl rfl

/-- The leaves of a member are leaves. -/
theorem HasLeaf.of_member (hn : n ∈ d.references) (hinner : r.lookup? n = some inner)
    (h : r.HasLeaf inner leaf) : r.HasLeaf d leaf := by
  rcases h with rfl | ⟨name, hname, hleaf⟩
  · exact Or.inr ⟨n, reaches_of_mem hn, hinner⟩
  · exact Or.inr ⟨name, hname.of_member hn hinner, hleaf⟩

/-- The leaves of a struct or a union are those of its members. -/
theorem hasLeaf_iff_of_member (hd : d.kind ≠ .atomic) : r.HasLeaf d leaf ↔
    ∃ n ∈ d.references, ∃ inner, r.lookup? n = some inner ∧ r.HasLeaf inner leaf := by
  constructor
  · rintro (rfl | ⟨name, ⟨n, hn, hpath⟩, hleaf⟩)
    · exact absurd rfl hd
    · refine ⟨n, hn, ?_⟩
      rcases hpath.cases_head with rfl | ⟨next, ⟨inner, hinner, hnext⟩, hrest⟩
      · exact ⟨_, hleaf, Or.inl rfl⟩
      · exact ⟨inner, hinner, Or.inr ⟨name, ⟨next, hnext, hrest⟩, hleaf⟩⟩
  · rintro ⟨n, hn, inner, hinner, hleaf⟩
    exact hleaf.of_member hn hinner

theorem hasLeaf_nil_iff : r.HasLeaf (.struct []) leaf ↔ False := by
  rw [hasLeaf_iff_of_member Kind.noConfusion]
  simp [Definition.references]

theorem hasLeaf_cons_iff (hinner : r.lookup? n = some inner) :
    r.HasLeaf (.struct (n :: rest)) leaf ↔
      r.HasLeaf inner leaf ∨ r.HasLeaf (.struct rest) leaf := by
  rw [hasLeaf_iff_of_member (d := .struct (n :: rest)) Kind.noConfusion,
    hasLeaf_iff_of_member (d := .struct rest) Kind.noConfusion]
  simp [Definition.references, hinner]

end

section

variable {r : Registry} (h : WellFormed r.entries)

include h in
/-- A leaf is the definition itself, or the definition of an entry. -/
theorem mem_definitions_of_hasLeaf {d : Definition} {leaf : Extent} (hleaf : r.HasLeaf d leaf) :
    .atomic leaf.size leaf.alignment ∈ d :: r.entries.map (·.definition) := by
  rcases hleaf with rfl | ⟨name, _, hname⟩
  · exact List.mem_cons_self
  · have hentry := (h.definitionIn?_eq_some_iff name _).mp hname
    exact List.mem_cons_of_mem _ (List.mem_map.mpr ⟨_, hentry, rfl⟩)

include h in
/-- A definition has only so many leaves. -/
theorem exists_leaves (d : Definition) :
    ∃ leaves : List Extent, ∀ leaf, leaf ∈ leaves ↔ r.HasLeaf d leaf := by
  classical
  refine ⟨((d :: r.entries.map (·.definition)).filterMap Definition.numbers?).filter
    fun leaf => r.HasLeaf d leaf, fun leaf => ?_⟩
  rw [List.mem_filter, decide_eq_true_iff]
  refine and_iff_right_of_imp fun hleaf => ?_
  exact List.mem_filterMap.mpr ⟨_, mem_definitions_of_hasLeaf h hleaf, rfl⟩

include h in
theorem positive_of_hasLeaf {d : Definition} (hd : d.Fits r.entries) {leaf : Extent}
    (hleaf : r.HasLeaf d leaf) : leaf.Positive := by
  rcases hleaf with rfl | ⟨name, _, hname⟩
  · exact hd
  · exact h.fits_of_lookup hname

include h in
/-- References end at leaves, so there is at least one. -/
theorem exists_hasLeaf {d : Definition} (hd : d.Fits r.entries) : ∃ leaf, r.HasLeaf d leaf := by
  induction d, hd using fits_induction h with
  | step d hd ih =>
    by_cases hkind : d.kind = .atomic
    · cases d with
      | atomic size alignment => exact ⟨⟨size, alignment⟩, Or.inl rfl⟩
      | struct names => cases hkind
      | union names => cases hkind
    · obtain ⟨n, hn⟩ := List.exists_mem_of_ne_nil _ (hd.references_ne_nil hkind)
      obtain ⟨inner, hinner⟩ := hd.exists_of_mem hn
      obtain ⟨leaf, hleaf⟩ := ih n hn inner hinner
      exact ⟨leaf, hleaf.of_member hn hinner⟩

end

/-! ## Alignments -/

section

variable {r : Registry} (h : WellFormed r.entries) (p : Packing)

include h in
/-- A struct is aligned like one of its members. -/
theorem exists_alignmentOf_struct {names : List String}
    (hd : (Definition.struct names).Fits r.entries) :
    ∃ n ∈ names, r.alignmentOf .unlimited p (.struct names) = .ok (r.taken p n).alignment := by
  by_cases hp : p = .optimized
  · subst hp
    obtain ⟨order, size, hfound, _⟩ := orderingOf_of_fits h hd
    exact ⟨_, head_of_orderingOf hd.1 hfound, alignmentOf_of_orderingOf h hd hfound⟩
  · exact ⟨_, Footprint.headD_mem hd.1 "", alignmentOf_declared h p hp hd⟩

include h in
/-- An alignment divides whatever the alignments of all leaves divide. -/
theorem alignmentOf_dvd {d : Definition} (hd : d.Fits r.entries) {multiple : Int}
    (hleaves : ∀ leaf, r.HasLeaf d leaf → leaf.alignment ∣ multiple) {alignment : Int}
    (halign : r.alignmentOf .unlimited p d = .ok alignment) : alignment ∣ multiple := by
  induction d, hd using fits_induction h generalizing alignment with
  | step d hd ih =>
    have hmembers : ∀ n ∈ d.references, (r.taken p n).alignment ∣ multiple := by
      intro n hn
      obtain ⟨inner, hinner⟩ := hd.exists_of_mem hn
      exact ih n hn inner hinner (fun leaf hleaf => hleaves leaf (hleaf.of_member hn hinner))
        (taken_of_lookup h p hinner).2
    cases d with
    | atomic size stored =>
      cases halign
      exact hleaves ⟨size, alignment⟩ (Or.inl rfl)
    | struct names =>
      obtain ⟨n, hn, heq⟩ := exists_alignmentOf_struct h p hd
      rw [Except.ok.inj (halign.symm.trans heq)]
      exact hmembers n hn
    | union names =>
      obtain ⟨joint, heq, hleast⟩ := alignmentOf_union h p hd
      rw [Except.ok.inj (halign.symm.trans heq), hleast.dvd_iff]
      exact List.forall_mem_map.mpr fun n hn => hmembers n (mem_of_mem_withNeighbour hn)

include h in
/-- Without padding a type is aligned as it is with padding. -/
theorem alignmentOf_packed {d : Definition} (hd : d.Fits r.entries) :
    r.alignmentOf .unlimited .packed d = r.alignmentOf .unlimited .unpacked d := by
  induction d, hd using fits_induction h with
  | step d hd ih =>
    have hmembers : ∀ n ∈ d.references,
        (r.taken .packed n).alignment = (r.taken .unpacked n).alignment := by
      intro n hn
      obtain ⟨inner, hinner⟩ := hd.exists_of_mem hn
      have hsame := ih n hn inner hinner
      rw [(taken_of_lookup h .packed hinner).2, (taken_of_lookup h .unpacked hinner).2] at hsame
      exact Except.ok.inj hsame
    cases d with
    | atomic size alignment => rfl
    | struct names =>
      rw [alignmentOf_declared h .packed (by decide) hd,
        alignmentOf_declared h .unpacked (by decide) hd, hmembers _ (Footprint.headD_mem hd.1 "")]
    | union names =>
      obtain ⟨packed, hpacked, hleast⟩ := alignmentOf_union h .packed hd
      obtain ⟨unpacked, hunpacked, hleast'⟩ := alignmentOf_union h .unpacked hd
      have hsame : (withNeighbour names).map (fun n => (r.taken .packed n).alignment) =
          (withNeighbour names).map fun n => (r.taken .unpacked n).alignment :=
        List.map_congr_left fun n hn => hmembers n (mem_of_mem_withNeighbour hn)
      rw [hpacked, hunpacked, hleast.eq_of_same hleast' fun a => by rw [hsame]]

end

end Registry

/-! ## The law -/

/-- Alignments come from the leaves. After any run, every engine gives each definition that fits, as
every registered one does, the same alignment packed and unpacked. The alignments of its leaves have
a least common multiple, and the alignment divides it under each packing. Where all leaves are
aligned to powers of two, so is the definition, and to none above the largest of them. -/
theorem alignments_come_from_the_leaves (steps : List Workshop.Step) :
    let w := Workshop.run .unlimited steps
    (∀ name d, w.registry.lookup? name = some d → d.Fits w.registry.entries) ∧
      ∀ d : Definition, d.Fits w.registry.entries →
        ∃ (layout : Packing → ModeLayout) (leaves : List Extent) (least : Int),
          (∀ e ∈ w.engines, ∀ p, w.LaysOut e p d (layout p)) ∧
          (layout .packed).alignment = (layout .unpacked).alignment ∧
          (∀ leaf, leaf ∈ leaves ↔ w.registry.HasLeaf d leaf) ∧
          LeastMultiple (leaves.map (·.alignment)) least ∧
          (∀ p, (layout p).alignment ∣ least) ∧
          ((∀ leaf ∈ leaves, IsTwoPower leaf.alignment) → ∃ top ∈ leaves,
            (∀ leaf ∈ leaves, leaf.alignment ≤ top.alignment) ∧
            ∀ p, IsTwoPower (layout p).alignment ∧ (layout p).alignment ≤ top.alignment) := by
  intro w
  have hw : w.Sound .unlimited := Workshop.sound_run .unlimited steps
  refine ⟨fun name d hd => hw.wellFormed.fits_of_lookup hd, fun d hd => ?_⟩
  choose layout _ hpos _ halign _ hlayout using
    fun p => Registry.layoutOf_of_fits hw.wellFormed p hd
  obtain ⟨leaves, hleaves⟩ := Registry.exists_leaves hw.wellFormed d
  have hdvd : ∀ multiple, (∀ leaf ∈ leaves, leaf.alignment ∣ multiple) →
      ∀ p, (layout p).alignment ∣ multiple := fun multiple hmultiple p =>
    Registry.alignmentOf_dvd hw.wellFormed p hd
      (fun leaf hleaf => hmultiple leaf ((hleaves leaf).mpr hleaf)) (halign p)
  obtain ⟨least, hleast⟩ := LeastMultiple.exists_of_pos (List.forall_mem_map.mpr fun leaf hleaf =>
    (Registry.positive_of_hasLeaf hw.wellFormed hd ((hleaves leaf).mp hleaf)).2)
  refine ⟨layout, leaves, least,
    fun e he p => hw.laysOut (hw.engines e he) p hd (hlayout p), ?_, hleaves, hleast,
    hdvd least fun leaf hleaf => hleast.dvd (List.mem_map_of_mem hleaf), fun hpowers => ?_⟩
  · have hsame := Registry.alignmentOf_packed hw.wellFormed hd
    rw [halign .packed, halign .unpacked] at hsame
    exact Except.ok.inj hsame
  · obtain ⟨first, hfirst⟩ := Registry.exists_hasLeaf hw.wellFormed hd
    obtain ⟨_, _, hmem, hle⟩ := largest_of_ne_nil (leaves.map (·.alignment))
      (List.ne_nil_of_mem (List.mem_map_of_mem ((hleaves first).mpr hfirst)))
    obtain ⟨top, htop, rfl⟩ := List.mem_map.mp hmem
    have hall := List.forall_mem_map.mp hle
    refine ⟨top, htop, hall, fun p => ?_⟩
    -- Among powers of two the largest is a common multiple of all.
    have hdivides : (layout p).alignment ∣ top.alignment :=
      hdvd top.alignment (fun leaf hleaf =>
        (hpowers leaf hleaf).dvd (hpowers top htop) (hall leaf hleaf)) p
    exact ⟨(hpowers top htop).of_dvd (hpos p) hdivides,
      Int.le_of_dvd (hpowers top htop).pos hdivides⟩

/-- The pair of a letter and a number is aligned like the letter as it is declared, and like the
number once it is optimized. -/
theorem the_pair_is_aligned_like_one_of_its_leaves :
    let w := Workshop.run .unlimited pairSteps
    ∃ e ∈ w.engines, ∃ layout : Packing → ModeLayout,
      (∀ p, w.LaysOut e p (.struct ["char", "int"]) (layout p)) ∧
      (∀ p, IsTwoPower (layout p).alignment ∧ (layout p).alignment ≤ 4) ∧
      (layout .packed).alignment = 1 ∧ (layout .optimized).alignment = 4 := by
  intro w
  have hengine : .empty ∈ w.engines := by decide
  have hdefinitions : w.registry.entries.map (·.definition) =
      [.struct ["char", "int"], .atomic 4 4, .atomic 1 1] := by decide
  obtain ⟨hfits, hlaws⟩ := alignments_come_from_the_leaves pairSteps
  have hpair : (Definition.struct ["char", "int"]).Fits w.registry.entries :=
    hfits "pair" _ (by decide)
  obtain ⟨layout, leaves, least, hlays, _, hleaves, _, _, hpowers⟩ := hlaws _ hpair
  have hstored : ∀ leaf ∈ leaves, leaf.alignment = 4 ∨ leaf.alignment = 1 := by
    intro leaf hleaf
    have hmem := Registry.mem_definitions_of_hasLeaf
      (Workshop.sound_run .unlimited pairSteps).wellFormed ((hleaves leaf).mp hleaf)
    rw [hdefinitions] at hmem
    simp at hmem
    omega
  obtain ⟨top, htop, _, hall⟩ := hpowers fun leaf hleaf => by
    rcases hstored leaf hleaf with heq | heq
    · exact ⟨2, heq⟩
    · exact ⟨0, heq⟩
  have hanswers :
      w.answer .unlimited .empty (.alignment .packed (.ofDefinition (.struct ["char", "int"]))) =
        .ok (.integer 1) ∧
      w.answer .unlimited .empty
        (.alignment .optimized (.ofDefinition (.struct ["char", "int"]))) =
        .ok (.integer 4) := by decide
  have hpacked := (hlays .empty hengine .packed).alignment_eq.symm.trans hanswers.1
  have hoptimized := (hlays .empty hengine .optimized).alignment_eq.symm.trans hanswers.2
  refine ⟨.empty, hengine, layout, hlays .empty hengine, fun p => ?_,
    Scalar.integer.inj (Except.ok.inj hpacked), Scalar.integer.inj (Except.ok.inj hoptimized)⟩
  obtain ⟨hpower, hle⟩ := hall p
  rcases hstored top htop with heq | heq
  · exact ⟨hpower, by omega⟩
  · exact ⟨hpower, by omega⟩

end DataLayout
