-- The laws of the recursion over a registry. What a definition takes depends only on what
-- its members take, and a registered name takes what its definition takes, wherever the
-- recursion starts. The same recursion by name ends, since references lead to older names.
import Mathlib.Logic.Function.Iterate
import DataLayout.Footprint
import DataLayout.Proofs.Orderings
import DataLayout.Proofs.Registration

namespace DataLayout

open Text

/-! ## Answers -/

@[simp] theorem ok_bind {α β : Type} (a : α) (next : α → Except Failure β) :
    (.ok a >>= next : Except Failure β) = next a := rfl

theorem bind_eq_ok_iff {α β : Type} {x : Except Failure α} {next : α → Except Failure β} {b : β} :
    x >>= next = .ok b ↔ ∃ a, x = .ok a ∧ next a = .ok b := by
  cases x with
  | error failure => simp [bind, Except.bind]
  | ok a => simp [bind, Except.bind]

theorem mapM_congr {α β : Type} {f g : α → Except Failure β} {items : List α}
    (h : ∀ a ∈ items, f a = g a) : items.mapM f = items.mapM g := by
  induction items with
  | nil => rfl
  | cons a rest ih =>
    rw [List.mapM_cons, List.mapM_cons, h a List.mem_cons_self,
      ih fun b hb => h b (List.mem_cons_of_mem _ hb)]

theorem mapM_eq_ok_of_forall {α β : Type} {f : α → Except Failure β} {g : α → β} {items : List α}
    (h : ∀ a ∈ items, f a = .ok (g a)) : items.mapM f = .ok (items.map g) := by
  induction items with
  | nil => rfl
  | cons a rest ih =>
    rw [List.mapM_cons, h a List.mem_cons_self, ih fun b hb => h b (List.mem_cons_of_mem _ hb)]
    rfl

/-- Each element of the answers is the answer to an item. -/
theorem exists_of_mem_mapM {α β : Type} {f : α → Except Failure β} {items : List α}
    {answers : List β} (h : items.mapM f = .ok answers) {b : β} (hb : b ∈ answers) :
    ∃ a ∈ items, f a = .ok b := by
  induction items generalizing answers with
  | nil =>
    cases h
    cases hb
  | cons a rest ih =>
    rw [List.mapM_cons] at h
    obtain ⟨first, hfirst, htail⟩ := bind_eq_ok_iff.mp h
    obtain ⟨others, hothers, heq⟩ := bind_eq_ok_iff.mp htail
    cases heq
    rcases List.mem_cons.mp hb with rfl | hb
    · exact ⟨a, List.mem_cons_self, hfirst⟩
    · obtain ⟨a', ha', hf⟩ := ih hothers hb
      exact ⟨a', List.mem_cons_of_mem _ ha', hf⟩

namespace Footprint

/-! ## Members -/

theorem membersOf_congr {f g : String → Except Failure Extent} (names : List String)
    (h : ∀ n ∈ names, f n = g n) : membersOf f names = membersOf g names := by
  unfold membersOf
  exact mapM_congr fun n hn => by rw [h n hn]

/-- A measured member has one of the names, and takes what that name takes. -/
theorem mem_of_membersOf {f : String → Except Failure Extent} {names : List String}
    {members : List Member} (h : membersOf f names = .ok members) {m : Member} (hm : m ∈ members) :
    m.name ∈ names ∧ f m.name = .ok m.extent := by
  obtain ⟨n, hn, hmeasured⟩ := exists_of_mem_mapM h hm
  obtain ⟨e, he, heq⟩ := bind_eq_ok_iff.mp hmeasured
  cases heq
  exact ⟨hn, he⟩

theorem names_of_membersOf {f : String → Except Failure Extent} {names : List String}
    {members : List Member} (h : membersOf f names = .ok members) :
    members.map (·.name) = names := by
  unfold membersOf at h
  induction names generalizing members with
  | nil =>
    cases h
    rfl
  | cons n rest ih =>
    rw [List.mapM_cons] at h
    obtain ⟨first, hfirst, htail⟩ := bind_eq_ok_iff.mp h
    obtain ⟨others, hothers, heq⟩ := bind_eq_ok_iff.mp htail
    obtain ⟨e, he, hm⟩ := bind_eq_ok_iff.mp hfirst
    cases heq
    cases hm
    rw [List.map_cons, ih hothers]

/-! ## Definitions depend on their members -/

section

variable {limit : DigitLimit} {p : Packing} {f g : String → Except Failure Extent}

theorem requireMembers_bind_congr {α : Type} {names : List String}
    {next next' : Unit → Except Failure α} (h : names ≠ [] → next () = next' ()) :
    (requireMembers names >>= next) = (requireMembers names >>= next') := by
  unfold requireMembers
  by_cases hnames : names = []
  · rw [if_pos (by simpa using hnames)]
    rfl
  · rw [if_neg (by simpa using hnames)]
    exact h hnames

theorem headD_mem {names : List String} (h : names ≠ []) (other : String) :
    names.headD other ∈ names := by
  cases names with
  | nil => exact absurd rfl h
  | cons n rest => exact List.mem_cons_self

theorem sizeOf_congr {d : Definition} (h : ∀ n ∈ d.references, f n = g n) :
    sizeOf limit p f d = sizeOf limit p g d := by
  cases d with
  | atomic size alignment => rfl
  | struct names =>
    simp only [sizeOf]
    rw [membersOf_congr names h]
  | union names =>
    simp only [sizeOf]
    rw [membersOf_congr names h]

theorem alignmentOf_congr {d : Definition} (h : ∀ n ∈ d.references, f n = g n) :
    alignmentOf limit p f d = alignmentOf limit p g d := by
  cases d with
  | atomic size alignment => rfl
  | struct names =>
    simp only [alignmentOf]
    apply requireMembers_bind_congr
    intro hnames
    cases p with
    | unpacked => rw [h _ (headD_mem hnames "")]
    | packed => rw [h _ (headD_mem hnames "")]
    | optimized => rw [membersOf_congr names h]
  | union names =>
    simp only [alignmentOf]
    rw [membersOf_congr names h]

theorem measured_eq_ok {d : Definition} {size alignment : Int}
    (hsize : sizeOf limit p f d = .ok size) (halign : alignmentOf limit p f d = .ok alignment) :
    measured limit p f d = .ok ⟨size, alignment⟩ := by
  unfold measured
  rw [hsize, halign]
  rfl

theorem measured_congr {d : Definition} (h : ∀ n ∈ d.references, f n = g n) :
    measured limit p f d = measured limit p g d := by
  unfold measured
  rw [sizeOf_congr h, alignmentOf_congr h]

end

/-! ## Names among entries -/

section

variable (limit : DigitLimit) (p : Packing)

theorem extentIn_cons_self (e : Entry) (older : List Entry) :
    extentIn limit p (e :: older) e.name =
      measured limit p (extentIn limit p older) e.definition := by
  simp [extentIn]

theorem extentIn_cons_of_ne {e : Entry} {name : String} (older : List Entry) (h : e.name ≠ name) :
    extentIn limit p (e :: older) name = extentIn limit p older name := by
  simp [extentIn, h]

theorem extentIn_of_none {entries : List Entry} {name : String}
    (h : definitionIn? entries name = none) :
    extentIn limit p entries name = .error (.type (.unknown name)) := by
  induction entries with
  | nil => rfl
  | cons e older ih =>
    by_cases hname : e.name = name
    · subst hname
      rw [definitionIn?_cons_self] at h
      cases h
    · rw [definitionIn?_cons_of_ne older hname] at h
      rw [extentIn_cons_of_ne limit p older hname, ih h]

/-- Newer entries do not change what a name takes. -/
theorem extentIn_append (newer : List Entry) {older : List Entry}
    (h : WellFormed (newer ++ older)) {name : String} (hname : (definitionIn? older name).isSome) :
    extentIn limit p (newer ++ older) name = extentIn limit p older name := by
  induction newer with
  | nil => rfl
  | cons e rest ih =>
    obtain ⟨hnew, _, hrest⟩ : definitionIn? (rest ++ older) e.name = none ∧ _ ∧
      WellFormed (rest ++ older) := h
    have hne : e.name ≠ name := by
      rintro rfl
      rw [isSome_definitionIn?_iff] at hname
      have hmem : e.name ∈ (rest ++ older).map (·.name) := by
        rw [List.map_append]
        exact List.mem_append_right _ hname
      rw [← isSome_definitionIn?_iff, hnew] at hmem
      cases hmem
    rw [List.cons_append, extentIn_cons_of_ne limit p _ hne, ih hrest]

/-- An entry takes what its definition takes among all the entries, older or newer. -/
theorem extentIn_of_lookup {entries : List Entry} (h : WellFormed entries) {name : String}
    {d : Definition} (hd : definitionIn? entries name = some d) :
    extentIn limit p entries name = measured limit p (extentIn limit p entries) d := by
  induction entries with
  | nil => cases hd
  | cons e older ih =>
    have hwell := h
    obtain ⟨_, hfits, hold⟩ := h
    have hlift : ∀ {d' : Definition}, d'.Fits older →
        measured limit p (extentIn limit p older) d' =
          measured limit p (extentIn limit p (e :: older)) d' := fun hd' =>
      measured_congr fun n hn =>
        (extentIn_append limit p [e] hwell (hd'.isSome_of_mem hn)).symm
    by_cases hname : e.name = name
    · subst hname
      rw [definitionIn?_cons_self] at hd
      cases hd
      rw [extentIn_cons_self, hlift hfits]
    · rw [definitionIn?_cons_of_ne older hname] at hd
      rw [extentIn_cons_of_ne limit p older hname, ih hold hd, hlift (hold.fits_of_lookup hd)]

end

end Footprint

/-! ## The recursion by name -/

namespace Registry

open Footprint

variable {r : Registry} (limit : DigitLimit) (p : Packing)

theorem resolve_of_some {name : String} {d : Definition} (h : r.lookup? name = some d) :
    r.resolve name = .ok d := by
  unfold resolve
  rw [h]
  rfl

theorem resolve_of_none {name : String} (h : r.lookup? name = none) :
    r.resolve name = .error (.type (.unknown name)) := by
  unfold resolve
  rw [h]
  rfl

theorem extent_of_lookup (h : WellFormed r.entries) {name : String} {d : Definition}
    (hd : r.lookup? name = some d) :
    r.extent limit p name = measured limit p (r.extent limit p) d :=
  extentIn_of_lookup limit p h hd

theorem extent_of_none {name : String} (h : r.lookup? name = none) :
    r.extent limit p name = .error (.type (.unknown name)) :=
  extentIn_of_none limit p h

variable {limit p} in
/-- In the declared order a struct is aligned like its first member, whatever the others are. -/
theorem alignmentOf_struct_cons (hp : p ≠ .optimized) (first : String) (rest : List String) :
    r.alignmentOf limit p (.struct (first :: rest)) =
      r.extent limit p first >>= fun e => .ok e.alignment := by
  cases p with
  | unpacked => rfl
  | packed => rfl
  | optimized => exact absurd rfl hp

/-- What a name takes is found by resolving it in the whole registry and measuring its
definition, with its members measured in the same way. -/
theorem extent_eq_level (h : WellFormed r.entries) (name : String) :
    r.extent limit p name = r.level limit p (r.extent limit p) name := by
  unfold level
  cases hd : r.lookup? name with
  | none =>
    rw [extent_of_none limit p hd, resolve_of_none hd]
    rfl
  | some d =>
    rw [extent_of_lookup limit p h hd, resolve_of_some hd]
    rfl

/-- One level agrees when the names that the name refers to do. -/
theorem level_congr {f g : String → Except Failure Extent} {name : String}
    (h : ∀ other, r.Refers name other → f other = g other) :
    r.level limit p f name = r.level limit p g name := by
  unfold level
  cases hd : r.lookup? name with
  | none =>
    rw [resolve_of_none hd]
    rfl
  | some d =>
    rw [resolve_of_some hd]
    exact measured_congr fun n hn => h n ⟨d, hd, hn⟩

/-- The recursion by name ends. As many levels as there are registered names reach what the
name takes, and whatever stands below the last level is never asked. -/
theorem iterate_level (h : WellFormed r.entries) (inner : String → Except Failure Extent)
    {depth : Nat} {name : String} (hdepth : r.names.idxOf name < depth) :
    (r.level limit p)^[depth] inner name = r.extent limit p name := by
  induction depth generalizing name with
  | zero => omega
  | succ depth ih =>
    rw [Function.iterate_succ_apply', extent_eq_level limit p h name]
    refine level_congr limit p fun other hother => ih ?_
    have := idxOf_lt_idxOf_of_refers h hother
    omega

/-! ## Growth -/

theorem isSome_lookup?_of_extent {name : String} {e : Extent}
    (h : r.extent limit p name = .ok e) : (r.lookup? name).isSome := by
  cases hd : r.lookup? name with
  | none =>
    rw [extent_of_none limit p hd] at h
    cases h
  | some d => rfl

/-- A call does not change what a registered name takes. -/
theorem extent_call (h : WellFormed r.entries) (c : Call) {name : String}
    (hname : (r.lookup? name).isSome) :
    (r.call limit c).2.extent limit p name = r.extent limit p name := by
  rcases call_cases limit r c with ⟨d, _, hc, he⟩ | ⟨failure, he⟩
  · rw [he]
    exact extentIn_append limit p [⟨c.name, d⟩] (wellFormed_insert h hc) hname
  · rw [he]

/-- A call does not change a found ordering. -/
theorem orderingOf_call (h : WellFormed r.entries) (c : Call) {names : List String}
    {found : List String × Int} (hfound : r.orderingOf limit names = .ok found) :
    (r.call limit c).2.orderingOf limit names = .ok found := by
  obtain ⟨members, hmembers, hrest⟩ := bind_eq_ok_iff.mp hfound
  have hsame : membersOf ((r.call limit c).2.extent limit .optimized) names =
      membersOf (r.extent limit .optimized) names := by
    refine membersOf_congr names fun n hn => extent_call limit .optimized h c ?_
    rw [← names_of_membersOf hmembers] at hn
    obtain ⟨m, hm, rfl⟩ := List.mem_map.mp hn
    exact isSome_lookup?_of_extent limit .optimized (mem_of_membersOf hmembers hm).2
  unfold orderingOf
  rw [hsame, hmembers]
  exact hrest

end Registry

end DataLayout
