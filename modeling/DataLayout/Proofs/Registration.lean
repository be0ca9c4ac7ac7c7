-- The laws of the registry. A call to register either adds one entry or changes nothing, and
-- an entry only refers to entries that are older. So each law holds after any calls.
import Mathlib.Logic.Relation
import Mathlib.Data.List.Nodup
import DataLayout.Registry

namespace DataLayout

/-! ## The invariant -/

/-- A definition may stand on top of some entries. The numbers of an atomic type are positive,
a struct or a union has members, and all of them are among the entries. -/
def Definition.Fits (older : List Entry) : Definition → Prop
  | .atomic size alignment => 1 ≤ size ∧ 1 ≤ alignment
  | .struct names => names ≠ [] ∧ ∀ n ∈ names, (definitionIn? older n).isSome
  | .union names => names ≠ [] ∧ ∀ n ∈ names, (definitionIn? older n).isSome

/-- Each entry has a name of its own and fits onto the entries that are older. -/
def WellFormed : List Entry → Prop
  | [] => True
  | e :: older => definitionIn? older e.name = none ∧ e.definition.Fits older ∧ WellFormed older

theorem definitionIn?_cons_self (e : Entry) (older : List Entry) :
    definitionIn? (e :: older) e.name = some e.definition := by
  simp [definitionIn?]

theorem definitionIn?_cons_of_ne {e : Entry} {name : String} (older : List Entry)
    (h : e.name ≠ name) : definitionIn? (e :: older) name = definitionIn? older name := by
  simp [definitionIn?, h]

/-- An entry under a new name hides no other. -/
theorem definitionIn?_cons_of_some {e : Entry} {older : List Entry} {name : String}
    {d : Definition} (hnew : definitionIn? older e.name = none)
    (h : definitionIn? older name = some d) : definitionIn? (e :: older) name = some d := by
  have hne : e.name ≠ name := by
    rintro rfl
    rw [hnew] at h
    cases h
  rw [definitionIn?_cons_of_ne older hne]
  exact h

/-- A name is looked up with success exactly when an entry has it. -/
theorem isSome_definitionIn?_iff (entries : List Entry) (name : String) :
    (definitionIn? entries name).isSome ↔ name ∈ entries.map (·.name) := by
  induction entries with
  | nil => simp [definitionIn?]
  | cons e older ih =>
    by_cases h : e.name = name
    · subst h
      simp [definitionIn?_cons_self]
    · rw [definitionIn?_cons_of_ne older h, ih]
      simp [Ne.symm h]

/-- The members of a definition that fits are among the entries. -/
theorem Definition.Fits.isSome_of_mem {older : List Entry} {d : Definition} (h : d.Fits older)
    {n : String} (hn : n ∈ d.references) : (definitionIn? older n).isSome := by
  cases d with
  | atomic size alignment => simp [Definition.references] at hn
  | struct names => exact h.2 n hn
  | union names => exact h.2 n hn

theorem Definition.Fits.exists_of_mem {older : List Entry} {d : Definition} (h : d.Fits older)
    {n : String} (hn : n ∈ d.references) : ∃ inner, definitionIn? older n = some inner :=
  Option.isSome_iff_exists.mp (h.isSome_of_mem hn)

theorem Definition.Fits.references_ne_nil {older : List Entry} {d : Definition}
    (h : d.Fits older) (hd : d.kind ≠ .atomic) : d.references ≠ [] := by
  cases d with
  | atomic size alignment => exact absurd rfl hd
  | struct names => exact h.1
  | union names => exact h.1

/-- A definition that fits still fits when more names are known. -/
theorem Definition.Fits.of_known {older entries : List Entry} {d : Definition} (h : d.Fits older)
    (hknown : ∀ n, (definitionIn? older n).isSome → (definitionIn? entries n).isSome) :
    d.Fits entries := by
  cases d with
  | atomic size alignment => exact h
  | struct names => exact ⟨h.1, fun n hn => hknown n (h.2 n hn)⟩
  | union names => exact ⟨h.1, fun n hn => hknown n (h.2 n hn)⟩

/-- A definition that fits still fits when an entry is added. -/
theorem Definition.Fits.cons {e : Entry} {older : List Entry} {d : Definition}
    (h : d.Fits older) : d.Fits (e :: older) := by
  apply h.of_known
  intro n hn
  rw [isSome_definitionIn?_iff] at hn ⊢
  exact List.mem_cons_of_mem _ hn

/-! ## One call -/

/-- What stands for a definition is the offer of it. -/
theorem Offer.definition?_eq_some_iff {offer : Offer} {d : Definition} :
    offer.definition? = some d ↔ offer = .ofDefinition d := by
  constructor
  · intro h
    unfold definition? at h
    split at h <;> cases h <;> rfl
  · rintro rfl
    exact definition?_ofDefinition d

namespace Registry

theorem contains_iff (r : Registry) (name : String) :
    r.contains name = true ↔ (definitionIn? r.entries name).isSome := Iff.rfl

theorem contains_eq_false_iff (r : Registry) (name : String) :
    r.contains name = false ↔ definitionIn? r.entries name = none := by
  unfold contains lookup?
  exact Option.isSome_eq_false_iff.trans Option.isNone_iff_eq_none

theorem checkMembers_eq_ok_iff (r : Registry) (names : List String) :
    r.checkMembers names = .ok () ↔
      names ≠ [] ∧ ∀ n ∈ names, (definitionIn? r.entries n).isSome := by
  unfold checkMembers
  by_cases hempty : names = []
  · simp [hempty]
  · rw [if_neg (by simpa using hempty)]
    cases hf : names.find? fun n => !r.contains n with
    | none =>
      have hall := List.find?_eq_none.mp hf
      simp only [true_iff]
      refine ⟨hempty, fun n hn => ?_⟩
      simpa [contains_iff] using hall n hn
    | some n =>
      have hnot := @List.find?_some _ (fun n => !r.contains n) _ _ hf
      simp only [reduceCtorEq, false_iff, not_and]
      intro _ hall
      have hin := (contains_iff r n).mpr (hall n (List.mem_of_find?_eq_some hf))
      simp [hin] at hnot

/-- A definition passes the check exactly when its name is new and it fits. -/
theorem check_eq_ok_iff (r : Registry) (name : String) (d : Definition) :
    r.check name d = .ok () ↔ definitionIn? r.entries name = none ∧ d.Fits r.entries := by
  rw [← contains_eq_false_iff]
  unfold check
  by_cases hc : r.contains name = true
  · simp [hc]
  · rw [if_neg hc]
    cases d with
    | atomic size alignment =>
      simp only [Definition.Fits, hc]
      split_ifs <;> simp <;> omega
    | struct names => simpa [hc, Definition.Fits] using checkMembers_eq_ok_iff r names
    | union names => simpa [hc, Definition.Fits] using checkMembers_eq_ok_iff r names

/-- A call for a definition that passes the check adds the entry that it asks for. An added
entry whose record is too long is still added. -/
theorem call_of_check (limit : Text.DigitLimit) {r : Registry} {c : Call} {d : Definition}
    (hd : c.offer.definition? = some d) (hc : r.check c.name d = .ok ()) :
    r.call limit c =
      (if d.writable limit then .ok () else .error .numeralTooLong, r.insert c.name d) := by
  unfold call register accept Logged.runFrom
  have hrecord : (Record.registered c.name d).writable limit = d.writable limit := rfl
  cases hw : d.writable limit <;>
    simp [Logged.runOn_bind, Logged.runOn_note, hd, hc, hrecord, hw]

/-- A call for a definition that does not pass the check changes nothing. -/
theorem call_of_check_error (limit : Text.DigitLimit) {r : Registry} {c : Call} {d : Definition}
    {fault : TypeFault} (hd : c.offer.definition? = some d)
    (hc : r.check c.name d = .error fault) : r.call limit c = (.error (.type fault), r) := by
  unfold call register accept Logged.runFrom
  simp [hd, Logged.runOn_bind, hc]

/-- A call adds the entry that it asks for, or it fails and changes nothing. -/
theorem call_cases (limit : Text.DigitLimit) (r : Registry) (c : Call) :
    (∃ d, c.offer.definition? = some d ∧ r.check c.name d = .ok () ∧
      r.call limit c =
        (if d.writable limit then .ok () else .error .numeralTooLong, r.insert c.name d)) ∨
    (∃ failure, r.call limit c = (.error failure, r)) := by
  cases hd : c.offer.definition? with
  | none =>
    right
    unfold call register accept Logged.runFrom
    simp only [hd, Logged.runOn_bind]
    split_ifs <;> exact ⟨_, rfl⟩
  | some d =>
    cases hc : r.check c.name d with
    | error fault => exact Or.inr ⟨.type fault, call_of_check_error limit hd hc⟩
    | ok _ => exact Or.inl ⟨d, rfl, hc, call_of_check limit hd hc⟩

end Registry

/-! ## What the invariant gives -/

theorem WellFormed.names_nodup {entries : List Entry} (h : WellFormed entries) :
    (entries.map (·.name)).Nodup := by
  induction entries with
  | nil => exact List.nodup_nil
  | cons e older ih =>
    obtain ⟨hnew, _, hold⟩ := h
    refine List.nodup_cons.mpr ⟨?_, ih hold⟩
    rw [← isSome_definitionIn?_iff, hnew]
    simp

/-- A look-up finds exactly the entries. -/
theorem WellFormed.definitionIn?_eq_some_iff {entries : List Entry} (h : WellFormed entries)
    (name : String) (d : Definition) :
    definitionIn? entries name = some d ↔ ⟨name, d⟩ ∈ entries := by
  induction entries with
  | nil => simp [definitionIn?]
  | cons e older ih =>
    obtain ⟨hnew, _, hold⟩ := h
    by_cases hname : e.name = name
    · subst hname
      rw [definitionIn?_cons_self, List.mem_cons]
      constructor
      · intro hd
        exact Or.inl (by cases hd; rfl)
      · rintro (hd | hd)
        · rw [← hd]
        · rw [← ih hold, hnew] at hd
          cases hd
    · rw [definitionIn?_cons_of_ne older hname, ih hold, List.mem_cons]
      constructor
      · exact Or.inr
      · rintro (hd | hd)
        · exact absurd (by rw [← hd]) hname
        · exact hd

/-- A definition that is looked up fits onto all the entries. -/
theorem WellFormed.fits_of_lookup {entries : List Entry} (h : WellFormed entries) {name : String}
    {d : Definition} (hd : definitionIn? entries name = some d) : d.Fits entries := by
  induction entries with
  | nil => cases hd
  | cons e older ih =>
    obtain ⟨hnew, hfits, hold⟩ := h
    by_cases hname : e.name = name
    · subst hname
      rw [definitionIn?_cons_self] at hd
      cases hd
      exact hfits.cons
    · rw [definitionIn?_cons_of_ne older hname] at hd
      exact (ih hold hd).cons

theorem WellFormed.of_append {newer older : List Entry} (h : WellFormed (newer ++ older)) :
    WellFormed older := by
  induction newer with
  | nil => exact h
  | cons e rest ih => exact ih h.2.2

namespace Registry

theorem names_insert (r : Registry) (name : String) (d : Definition) :
    (r.insert name d).names = r.names ++ [name] := by
  simp [names, insert]

theorem mem_names_iff (r : Registry) (name : String) :
    name ∈ r.names ↔ (definitionIn? r.entries name).isSome := by
  rw [isSome_definitionIn?_iff]
  simp [names]

theorem notMem_names_iff (r : Registry) (name : String) :
    name ∉ r.names ↔ definitionIn? r.entries name = none := by
  rw [mem_names_iff, Option.not_isSome_iff_eq_none]

theorem contains_iff_mem_names (r : Registry) (name : String) :
    r.contains name = true ↔ name ∈ r.names := (r.mem_names_iff name).symm

/-- A struct or a union of registered names fits. -/
theorem fits_of_names {r : Registry} {names : List String} (hne : names ≠ [])
    (hnames : ∀ n ∈ names, n ∈ r.names) :
    (Definition.struct names).Fits r.entries ∧ (Definition.union names).Fits r.entries := by
  have hknown : ∀ n ∈ names, (definitionIn? r.entries n).isSome := fun n hn =>
    (r.mem_names_iff n).mp (hnames n hn)
  exact ⟨⟨hne, hknown⟩, hne, hknown⟩

theorem check_of_mem_names {r : Registry} {name : String} (hname : name ∈ r.names)
    (d : Definition) : r.check name d = .error ⟨.redefinition, none⟩ := by
  unfold check
  rw [if_pos ((r.contains_iff_mem_names name).mpr hname)]

theorem check_atomic {r : Registry} {name : String} (hname : name ∉ r.names)
    (size alignment : Int) :
    r.check name (.atomic size alignment) =
      if size ≤ 0 then .error ⟨.zeroSize, none⟩
      else if alignment ≤ 0 then .error ⟨.zeroAlignment, none⟩ else .ok () := by
  unfold check
  rw [if_neg (by rwa [contains_iff_mem_names])]

/-- Under a new name the check of a struct or a union is that of its members. -/
theorem check_compound {r : Registry} {name : String} (hname : name ∉ r.names)
    {d : Definition} (hd : d.kind ≠ .atomic) : r.check name d = r.checkMembers d.references := by
  unfold check
  rw [if_neg (by rwa [contains_iff_mem_names])]
  cases d with
  | atomic size alignment => exact absurd rfl hd
  | struct names => rfl
  | union names => rfl

/-- Behind known members, the first unknown one is the fault. -/
theorem checkMembers_of_unknown {r : Registry} {before after : List String} {n : String}
    (hbefore : ∀ m ∈ before, m ∈ r.names) (hn : n ∉ r.names) :
    r.checkMembers (before ++ n :: after) = .error (.unknown n) := by
  have hfind : (before ++ n :: after).find? (fun m => !r.contains m) = some n := by
    rw [List.find?_eq_some_iff_append]
    rw [← contains_iff_mem_names] at hn
    refine ⟨by simpa using hn, before, after, rfl, fun m hm => ?_⟩
    simpa [contains_iff_mem_names] using hbefore m hm
  unfold checkMembers
  rw [if_neg (by simp), hfind]

/-- There are no members, or one is unknown behind known ones, or all of them are registered. -/
theorem checkMembers_cases (r : Registry) (names : List String) :
    (names = [] ∧ r.checkMembers names = .error ⟨.emptyCompound, none⟩) ∨
    (∃ before n after, names = before ++ n :: after ∧ (∀ m ∈ before, m ∈ r.names) ∧
      n ∉ r.names ∧ r.checkMembers names = .error (.unknown n)) ∨
    (names ≠ [] ∧ (∀ n ∈ names, n ∈ r.names) ∧ r.checkMembers names = .ok ()) := by
  by_cases hempty : names = []
  · subst hempty
    exact Or.inl ⟨rfl, rfl⟩
  cases hfind : names.find? fun n => !r.contains n with
  | none =>
    have hall : ∀ n ∈ names, n ∈ r.names := by
      simpa [← contains_iff_mem_names] using List.find?_eq_none.mp hfind
    refine Or.inr (Or.inr ⟨hempty, hall, (r.checkMembers_eq_ok_iff names).mpr ⟨hempty, ?_⟩⟩)
    exact fun n hn => (r.mem_names_iff n).mp (hall n hn)
  | some n =>
    obtain ⟨hn, before, after, rfl, hbefore⟩ := List.find?_eq_some_iff_append.mp hfind
    have hknown : ∀ m ∈ before, m ∈ r.names := by
      simpa [← contains_iff_mem_names] using hbefore
    have hunknown : n ∉ r.names := by simpa [← contains_iff_mem_names] using hn
    exact Or.inr (Or.inl ⟨before, n, after, rfl, hknown, hunknown,
      checkMembers_of_unknown hknown hunknown⟩)

theorem length_names (r : Registry) : r.names.length = r.size := by
  simp [names, size]

theorem idxOf_lt_of_size_le {r : Registry} {name : String} (hname : (r.lookup? name).isSome)
    {bound : Nat} (hbound : r.size ≤ bound) : r.names.idxOf name < bound := by
  have hmem := (r.mem_names_iff name).mpr hname
  have := List.idxOf_lt_length_of_mem hmem
  rw [r.length_names] at this
  omega

/-- A name is registered after the names that its definition refers to. -/
theorem idxOf_lt_idxOf_of_refers {r : Registry} (h : WellFormed r.entries) {name other : String}
    (hr : r.Refers name other) : r.names.idxOf other < r.names.idxOf name := by
  obtain ⟨entries⟩ := r
  obtain ⟨d, hd, hmem⟩ := hr
  induction entries with
  | nil => cases hd
  | cons e older ih =>
    obtain ⟨hnew, hfits, hold⟩ := h
    have hnames : names ⟨e :: older⟩ = names ⟨older⟩ ++ [e.name] := names_insert ⟨older⟩ _ _
    have hin : ∀ n, (definitionIn? older n).isSome → n ∈ names ⟨older⟩ :=
      fun n hn => (mem_names_iff ⟨older⟩ n).mpr hn
    rw [hnames]
    unfold lookup? at hd
    by_cases hname : e.name = name
    · subst hname
      rw [definitionIn?_cons_self] at hd
      cases hd
      have hother := hin other (hfits.isSome_of_mem hmem)
      have hself : e.name ∉ names ⟨older⟩ := (notMem_names_iff ⟨older⟩ e.name).mpr hnew
      rw [List.idxOf_append_of_mem hother, List.idxOf_append_of_notMem hself]
      have := List.idxOf_lt_length_of_mem hother
      omega
    · rw [definitionIn?_cons_of_ne older hname] at hd
      have hother := hin other ((hold.fits_of_lookup hd).isSome_of_mem hmem)
      have hself := hin name (by rw [hd]; rfl)
      rw [List.idxOf_append_of_mem hother, List.idxOf_append_of_mem hself]
      exact ih hold hd

/-- References always lead to older names, so following them ends. -/
theorem wellFounded_refers {r : Registry} (h : WellFormed r.entries) :
    WellFounded fun other name => r.Refers name other := by
  refine Subrelation.wf ?_ (measure r.names.idxOf).wf
  intro other name hr
  exact idxOf_lt_idxOf_of_refers h hr

/-- What a definition has when its members have it, every definition that fits has. -/
theorem fits_induction {r : Registry} (h : WellFormed r.entries)
    {motive : (d : Definition) → d.Fits r.entries → Prop}
    (step : ∀ (d : Definition) (hd : d.Fits r.entries),
      (∀ n ∈ d.references, ∀ inner, ∀ hinner : r.lookup? n = some inner,
        motive inner (h.fits_of_lookup hinner)) → motive d hd)
    (d : Definition) (hd : d.Fits r.entries) : motive d hd := by
  have hnames : ∀ name inner, ∀ hinner : r.lookup? name = some inner,
      motive inner (h.fits_of_lookup hinner) := by
    intro name
    induction name using (wellFounded_refers h).induction with
    | _ name ih =>
      intro inner hinner
      exact step inner _ fun n hn => ih n ⟨inner, hinner, hn⟩
  exact step d hd fun n _ => hnames n

theorem not_transGen_refers_self {r : Registry} (h : WellFormed r.entries) (name : String) :
    ¬ Relation.TransGen r.Refers name name := by
  have hlt : ∀ other, Relation.TransGen r.Refers name other →
      r.names.idxOf other < r.names.idxOf name := by
    intro other ht
    induction ht with
    | single hr => exact idxOf_lt_idxOf_of_refers h hr
    | tail _ hr ih => exact Nat.lt_trans (idxOf_lt_idxOf_of_refers h hr) ih
  intro ht
  exact Nat.lt_irrefl _ (hlt name ht)

/-! ## One more entry -/

/-- A registry has exactly one entry more than another one. -/
structure Gains (r : Registry) (name : String) (d : Definition) (after : Registry) : Prop where
  new : name ∉ r.names
  names_eq : after.names = r.names ++ [name]
  size_eq : after.size = r.size + 1
  lookup_self : after.lookup? name = some d
  lookup_of_ne : ∀ other, other ≠ name → after.lookup? other = r.lookup? other

theorem gains_insert {r : Registry} {name : String} {d : Definition}
    (hcheck : r.check name d = .ok ()) : r.Gains name d (r.insert name d) where
  new := (r.notMem_names_iff name).mpr ((check_eq_ok_iff r name d).mp hcheck).1
  names_eq := r.names_insert name d
  size_eq := rfl
  lookup_self := definitionIn?_cons_self ⟨name, d⟩ r.entries
  lookup_of_ne := fun _ hother => definitionIn?_cons_of_ne r.entries hother.symm

/-! ## After any calls -/

theorem wellFormed_insert {r : Registry} (h : WellFormed r.entries) {name : String}
    {d : Definition} (hc : r.check name d = .ok ()) : WellFormed (r.insert name d).entries := by
  obtain ⟨hnew, hfits⟩ := (check_eq_ok_iff r name d).mp hc
  exact ⟨hnew, hfits, h⟩

theorem wellFormed_call (limit : Text.DigitLimit) {r : Registry} (h : WellFormed r.entries)
    (c : Call) : WellFormed (r.call limit c).2.entries := by
  rcases call_cases limit r c with ⟨d, _, hc, he⟩ | ⟨failure, he⟩
  · rw [he]
    exact wellFormed_insert h hc
  · rw [he]
    exact h

theorem wellFormed_afterCalls (limit : Text.DigitLimit) {r : Registry} (h : WellFormed r.entries)
    (calls : List Call) : WellFormed (r.afterCalls limit calls).entries := by
  induction calls generalizing r with
  | nil => exact h
  | cons c rest ih => exact ih (wellFormed_call limit h c)

/-- Whatever is called, the invariant holds. -/
theorem wellFormed_ofCalls (limit : Text.DigitLimit) (calls : List Call) :
    WellFormed (ofCalls limit calls).entries :=
  wellFormed_afterCalls limit (r := empty) trivial calls

/-- Nothing that is registered is ever lost or changed. -/
theorem lookup?_call (limit : Text.DigitLimit) {r : Registry} {name : String} {d : Definition}
    (h : r.lookup? name = some d) (c : Call) : (r.call limit c).2.lookup? name = some d := by
  rcases call_cases limit r c with ⟨d', _, hc, he⟩ | ⟨failure, he⟩
  · rw [he]
    obtain ⟨hnew, _⟩ := (check_eq_ok_iff r c.name d').mp hc
    exact definitionIn?_cons_of_some hnew h
  · rw [he]
    exact h

/-- A call makes no other name known than the one that it registers. -/
theorem isSome_lookup?_of_call (limit : Text.DigitLimit) {r : Registry} {c : Call} {name : String}
    (h : ((r.call limit c).2.lookup? name).isSome) :
    name = c.name ∨ (r.lookup? name).isSome := by
  rcases call_cases limit r c with ⟨d, _, _, he⟩ | ⟨failure, he⟩
  · rw [he] at h
    by_cases hname : c.name = name
    · exact Or.inl hname.symm
    · right
      rwa [← show (r.insert c.name d).lookup? name = r.lookup? name from
        definitionIn?_cons_of_ne r.entries hname]
  · rw [he] at h
    exact Or.inr h

theorem lookup?_afterCalls (limit : Text.DigitLimit) {r : Registry} {name : String}
    {d : Definition} (h : r.lookup? name = some d) (calls : List Call) :
    (r.afterCalls limit calls).lookup? name = some d := by
  induction calls generalizing r with
  | nil => exact h
  | cons c rest ih => exact ih (lookup?_call limit h c)

/-- Without a limit on numerals, the entries are those of the accepted calls, the newest
first. -/
theorem entries_afterCalls (r : Registry) (calls : List Call) :
    (r.afterCalls .unlimited calls).entries =
      (r.acceptedFrom .unlimited calls).reverse ++ r.entries := by
  induction calls generalizing r with
  | nil => rfl
  | cons c rest ih =>
    have hstep : r.afterCalls .unlimited (c :: rest) =
        (r.call .unlimited c).2.afterCalls .unlimited rest := rfl
    rw [hstep, ih]
    rcases call_cases .unlimited r c with ⟨d, hd, _, he⟩ | ⟨failure, he⟩
    · have hw : d.writable .unlimited = true := by cases d <;> rfl
      rw [if_pos hw] at he
      simp [acceptedFrom, he, hd, insert]
    · simp [acceptedFrom, he]

end Registry

/-! ## The law -/

/-- What a registry shows of the entries that were accepted into it, the oldest first. -/
structure Registry.Shows (r : Registry) (accepted : List Entry) : Prop where
  names_eq : r.names = accepted.map (·.name)
  names_nodup : r.names.Nodup
  size_eq : r.size = r.names.length
  contains_iff : ∀ name, r.contains name = true ↔ name ∈ r.names
  lookup_iff : ∀ name d, r.lookup? name = some d ↔ ⟨name, d⟩ ∈ accepted
  lookup_none_iff : ∀ name, r.lookup? name = none ↔ name ∉ r.names
  atomic_positive : ∀ name size alignment,
    r.lookup? name = some (.atomic size alignment) → 1 ≤ size ∧ 1 ≤ alignment
  compound_nonempty : ∀ name d, r.lookup? name = some d → d.kind ≠ .atomic → d.references ≠ []
  refers_earlier : ∀ name other, r.Refers name other →
    other ∈ r.names ∧ r.names.idxOf other < r.names.idxOf name
  acyclic : ∀ name, ¬ Relation.TransGen r.Refers name name

/-- After any calls the registry shows the accepted ones, in their order and nothing else. Each
look-up gives the one accepted definition of its name, numbers are positive, and each reference
leads to an older name. Later calls change no look-up. -/
theorem the_registry_shows_what_its_calls_accepted (calls more : List Call) :
    (Registry.ofCalls .unlimited calls).Shows (Registry.accepted .unlimited calls) ∧
      ∀ name d, (Registry.ofCalls .unlimited calls).lookup? name = some d →
        (Registry.ofCalls .unlimited (calls ++ more)).lookup? name = some d := by
  have hwell := Registry.wellFormed_ofCalls .unlimited calls
  have hentries : (Registry.ofCalls .unlimited calls).entries =
      (Registry.accepted .unlimited calls).reverse := by
    have := Registry.entries_afterCalls .empty calls
    rwa [show Registry.empty.entries = [] from rfl, List.append_nil] at this
  refine ⟨?_, ?_⟩
  · generalize Registry.ofCalls .unlimited calls = r at hwell hentries
    exact
      { names_eq := by rw [Registry.names, hentries, List.reverse_reverse]
        names_nodup := by
          rw [Registry.names, List.map_reverse]
          exact List.nodup_reverse.2 hwell.names_nodup
        size_eq := r.length_names.symm
        contains_iff := fun name => (r.mem_names_iff name).symm
        lookup_iff := by
          intro name d
          rw [← List.mem_reverse, ← hentries]
          exact hwell.definitionIn?_eq_some_iff name d
        lookup_none_iff := by
          intro name
          rw [r.mem_names_iff, ← Option.isNone_iff_eq_none]
          simp [Registry.lookup?]
        atomic_positive := fun name size alignment h => hwell.fits_of_lookup h
        compound_nonempty := fun name d h hd => (hwell.fits_of_lookup h).references_ne_nil hd
        refers_earlier := by
          rintro name other ⟨d, hd, hmem⟩
          refine ⟨?_, Registry.idxOf_lt_idxOf_of_refers hwell ⟨d, hd, hmem⟩⟩
          exact (r.mem_names_iff other).mpr ((hwell.fits_of_lookup hd).isSome_of_mem hmem)
        acyclic := Registry.not_transGen_refers_self hwell }
  · intro name d h
    have hmore : Registry.ofCalls .unlimited (calls ++ more) =
        (Registry.ofCalls .unlimited calls).afterCalls .unlimited more := by
      simp [Registry.ofCalls, Registry.afterCalls, List.foldl_append]
    rw [hmore]
    exact Registry.lookup?_afterCalls .unlimited h more

/-- A number, the same name again, a struct of itself, and a struct of the number. -/
def loopCalls : List Call :=
  [⟨"int", .atomic (.integer 4) (.integer 4)⟩, ⟨"int", .atomic (.integer 1) (.integer 1)⟩,
    ⟨"loop", .struct ["loop"]⟩, ⟨"pair", .struct ["int", "int"]⟩]

theorem the_first_number_stays_registered :
    (Registry.ofCalls .unlimited loopCalls).names = ["int", "pair"] ∧
      (Registry.ofCalls .unlimited (loopCalls ++ loopCalls)).lookup? "pair" =
        some (.struct ["int", "int"]) := by
  obtain ⟨hshows, hlater⟩ := the_registry_shows_what_its_calls_accepted loopCalls loopCalls
  refine ⟨?_, hlater "pair" _ (by decide)⟩
  rw [hshows.names_eq]
  decide

end DataLayout
