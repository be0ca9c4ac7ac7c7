-- The laws of structs that are inside of other structs, through any names between them. No
-- struct is inside of itself, and what is inside of an old struct never changes. So findings can
-- be layered, each one behind those of the structs inside of it.
import DataLayout.Proofs.Search

namespace DataLayout

open Text

/-! ## Structs inside of structs -/

namespace Registry

/-- A name leads to a struct: it is registered as the struct, or it refers to a name that leads
to it. -/
def LeadsTo (r : Registry) (name : String) (members : List String) : Prop :=
  ∃ other, Relation.ReflTransGen r.Refers name other ∧ r.lookup? other = some (.struct members)

/-- A struct is inside of the definition: it is the definition, or a reference leads to it. -/
def Holds (r : Registry) (d : Definition) (members : List String) : Prop :=
  d = .struct members ∨ ∃ n ∈ d.references, r.LeadsTo n members

/-- One struct is inside of another one, at some depth. -/
def Nests (r : Registry) (outer inner : List String) : Prop := ∃ n ∈ outer, r.LeadsTo n inner

section

variable {r : Registry} {name : String} {members : List String}

theorem leadsTo_iff_holds {d : Definition} (hd : r.lookup? name = some d) :
    r.LeadsTo name members ↔ r.Holds d members := by
  constructor
  · rintro ⟨other, hpath, hother⟩
    rcases hpath.cases_head with rfl | ⟨next, ⟨d', hd', hnext⟩, hrest⟩
    · rw [hd] at hother
      exact Or.inl (Option.some.inj hother)
    · rw [hd] at hd'
      cases hd'
      exact Or.inr ⟨next, hnext, other, hrest, hother⟩
  · rintro (rfl | ⟨n, hn, other, hpath, hother⟩)
    · exact ⟨name, .refl, hd⟩
    · exact ⟨other, .head ⟨d, hd, hn⟩ hpath, hother⟩

theorem not_holds_atomic {size alignment : Int} : ¬ r.Holds (.atomic size alignment) members := by
  rintro (hself | ⟨n, hn, _⟩)
  · cases hself
  · cases hn

theorem holds_struct_iff {names : List String} :
    r.Holds (.struct names) members ↔ r.Nests names members ∨ members = names := by
  unfold Holds
  rw [or_comm, Definition.struct.injEq, @eq_comm _ names]
  exact Iff.rfl

theorem holds_union_iff {names : List String} :
    r.Holds (.union names) members ↔ r.Nests names members :=
  or_iff_right fun hself => by cases hself

/-- No struct is inside of itself. -/
theorem not_nests_self (h : WellFormed r.entries) (members : List String) :
    ¬ r.Nests members members := by
  rintro ⟨n, hn, other, hpath, hother⟩
  -- The name with this definition refers to the member that leads back to the name.
  exact not_transGen_refers_self h other (.head' ⟨_, hother, hn⟩ hpath)

/-- In a registry that has grown, an old name leads only to what it led to before. -/
theorem leadsTo_of_grown (h : WellFormed r.entries) {grown : Registry}
    (hgrown : ∀ n d, r.lookup? n = some d → grown.lookup? n = some d)
    (hname : (r.lookup? name).isSome) (hleads : grown.LeadsTo name members) :
    r.LeadsTo name members := by
  obtain ⟨other, hpath, hother⟩ := hleads
  induction hpath using Relation.ReflTransGen.head_induction_on with
  | refl =>
    obtain ⟨d, hd⟩ := Option.isSome_iff_exists.mp hname
    rw [hgrown other d hd] at hother
    cases hother
    exact ⟨other, .refl, hd⟩
  | @head n next hrefers _ ih =>
    obtain ⟨d, hd⟩ := Option.isSome_iff_exists.mp hname
    obtain ⟨d', hd', hnext⟩ := hrefers
    rw [hgrown n d hd] at hd'
    cases hd'
    exact (leadsTo_iff_holds hd).mpr
      (Or.inr ⟨next, hnext, ih ((h.fits_of_lookup hd).isSome_of_mem hnext)⟩)

theorem isSome_of_orderingOf {limit : DigitLimit} {found : List String × Int}
    (h : r.orderingOf limit members = .ok found) : ∀ n ∈ members, (r.lookup? n).isSome := by
  obtain ⟨measured, _, hmeasured, _, _⟩ := orderingOf_eq_ok h
  intro n hn
  rw [← Footprint.names_of_membersOf hmeasured] at hn
  obtain ⟨m, hm, rfl⟩ := List.mem_map.mp hn
  exact isSome_lookup?_of_extent limit .optimized (Footprint.mem_of_membersOf hmeasured hm).2

end

end Registry

/-! ## Findings -/

/-- What a search has found for a struct: its members, their best ordering and its size. -/
abbrev Finding := List String × List String × Int

/-- A finding as it stands in the log. -/
def Finding.record (f : Finding) : Record := .ordered f.1 f.2.1 f.2.2

/-- The structs of some findings. -/
def structsOf (findings : List Finding) : List (List String) := findings.map (·.1)

/-- Findings as a memory holds them, the newest first. Each one is the only one for its struct,
and the structs inside of it were found before. -/
def Layered (r : Registry) : List Finding → Prop
  | [] => True
  | f :: older => f.1 ∉ structsOf older ∧ f.2.1.headD "" ∈ f.1 ∧
      (∀ inner, r.Nests f.1 inner → inner ∈ structsOf older) ∧ Layered r older

namespace Layered

variable {r : Registry} {findings : List Finding}

theorem nodup (h : Layered r findings) : (structsOf findings).Nodup := by
  induction findings with
  | nil => exact List.nodup_nil
  | cons f older ih => exact List.nodup_cons.mpr ⟨h.1, ih h.2.2.2⟩

theorem of_append {newer older : List Finding} (h : Layered r (newer ++ older)) :
    Layered r older := by
  induction newer with
  | nil => exact h
  | cons f rest ih => exact ih h.2.2.2

/-- What is inside of a found struct was found, too. -/
theorem mem_of_nests (h : Layered r findings) {outer inner : List String}
    (houter : outer ∈ structsOf findings) (hnests : r.Nests outer inner) :
    inner ∈ structsOf findings := by
  induction findings with
  | nil => cases houter
  | cons f older ih =>
    rcases List.mem_cons.mp houter with rfl | hmem
    · exact List.mem_cons_of_mem _ (h.2.2.1 inner hnests)
    · exact List.mem_cons_of_mem _ (ih h.2.2.2 hmem)

theorem head_mem (h : Layered r findings) {f : Finding} (hf : f ∈ findings) :
    f.2.1.headD "" ∈ f.1 := by
  induction findings with
  | nil => cases hf
  | cons g older ih =>
    rcases List.mem_cons.mp hf with rfl | hmem
    · exact h.2.1
    · exact ih h.2.2.2 hmem

theorem lookup_of_mem (h : Layered r findings) {f : Finding} (hf : f ∈ findings) :
    findings.lookup f.1 = some f.2 := by
  induction findings with
  | nil => cases hf
  | cons g older ih =>
    rw [List.lookup_cons]
    rcases List.mem_cons.mp hf with rfl | hmem
    · simp
    · have hne : f.1 ≠ g.1 := by
        intro heq
        exact h.1 (heq ▸ List.mem_map.mpr ⟨f, hmem, rfl⟩)
      rw [beq_false_of_ne hne]
      exact ih h.2.2.2 hmem

theorem grown (h : Layered r findings) (hwell : WellFormed r.entries) {grown : Registry}
    (hgrown : ∀ n d, r.lookup? n = some d → grown.lookup? n = some d)
    (hknown : ∀ f ∈ findings, ∀ n ∈ f.1, (r.lookup? n).isSome) : Layered grown findings := by
  induction findings with
  | nil => trivial
  | cons f older ih =>
    obtain ⟨hnew, hhead, hinner, hold⟩ := h
    refine ⟨hnew, hhead, fun inner hnests => hinner inner ?_, ih hold fun g hg => hknown g
      (List.mem_cons_of_mem _ hg)⟩
    obtain ⟨n, hn, hleads⟩ := hnests
    exact ⟨n, hn, Registry.leadsTo_of_grown hwell hgrown
      (hknown f List.mem_cons_self n hn) hleads⟩

end Layered

end DataLayout
