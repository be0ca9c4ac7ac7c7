-- The law of the calls that fail. A call to register checks all of its definition before it
-- changes the ledger, but it writes the record after that. So a call that fails changes nothing,
-- except when the record of the added entry cannot be written.
import DataLayout.Ledger
import DataLayout.Proofs.Numeral
import DataLayout.Proofs.Registration

namespace DataLayout

open Text

/-! ## Same names -/

theorem Scalar.same_self (name : Scalar) : name.same name = true := by
  cases hfraction : name.fraction? <;> simp [same, hfraction]

theorem Scalar.same_text (name other : String) :
    (Scalar.text name).same (.text other) = decide (name = other) := by
  simp [same, fraction?, beq_eq_decide]

theorem Registry.accept_eq_ok_iff (limit : DigitLimit) {offer : Offer} {d : Definition} :
    accept limit offer = .ok d ↔ offer.definition? = some d := by
  unfold accept
  cases offer.definition? with
  | some plain => simp
  | none =>
    simp only [reduceCtorEq, iff_false]
    split_ifs <;> simp

namespace Ledger

variable {limit : DigitLimit} {l : Ledger} {c : AnyCall} {name : Scalar} {d : AnyDefinition}

/-! ## Added entries -/

/-- A ledger gains exactly one entry. All names that are the same as its name find it, and all
others find what they found before. -/
structure Gains (l : Ledger) (name : Scalar) (d : AnyDefinition) (after : Ledger) : Prop where
  new : l.lookup? name = none
  names_eq : after.names = l.names ++ [name]
  size_eq : after.size = l.size + 1
  lookup_self : after.lookup? name = some d
  lookup_of_same : ∀ other, name.same other = true → after.lookup? other = some d
  lookup_of_not_same : ∀ other, name.same other = false → after.lookup? other = l.lookup? other

theorem lookup?_cons_of_same {e : AnyEntry} {other : Scalar} (h : e.name.same other = true) :
    lookup? ⟨e :: l.entries⟩ other = some e.definition := by
  unfold lookup?
  rw [List.find?_cons, h]
  rfl

theorem lookup?_cons_of_not_same {e : AnyEntry} {other : Scalar}
    (h : e.name.same other = false) : lookup? ⟨e :: l.entries⟩ other = l.lookup? other := by
  unfold lookup?
  rw [List.find?_cons, h]

theorem gains_cons (h : l.lookup? name = none) : l.Gains name d ⟨⟨name, d⟩ :: l.entries⟩ where
  new := h
  names_eq := by simp [names]
  size_eq := rfl
  lookup_self := lookup?_cons_of_same name.same_self
  lookup_of_same := fun _ hother => lookup?_cons_of_same hother
  lookup_of_not_same := fun _ hother => lookup?_cons_of_not_same hother

/-- A call adds the entry that it asks for. -/
def Adds (l : Ledger) (c : AnyCall) (after : Ledger) : Prop :=
  ∃ name d, c.name = .scalar name ∧ c.offer = .ofDefinition d ∧ l.Gains name d after

/-! ## Valid definitions -/

/-- A definition is valid beside the registered ones. -/
def Fits (l : Ledger) : AnyDefinition → Prop
  | .atomic size alignment => 1 ≤ size ∧ 1 ≤ alignment
  | .struct members => members ≠ [] ∧ ∀ member ∈ members, l.contains member = .ok true
  | .union variants => variants ≠ [] ∧ ∀ variant ∈ variants, l.contains variant = .ok true

theorem checkMembers_eq_ok_iff (members : List Datum) :
    l.checkMembers members = .ok () ↔ ∀ member ∈ members, l.contains member = .ok true := by
  induction members with
  | nil => simp [checkMembers]
  | cons member rest ih =>
    rw [checkMembers, List.forall_mem_cons, ← ih]
    rcases l.contains member with failure | _ | _
    · simp [bind, Except.bind]
    · simp [bind, Except.bind, throw, throwThe, MonadExceptOf.throw]
    · simp [bind, Except.bind]

theorem checkCompound_eq_ok_iff (members : List Datum) : l.checkCompound members = .ok () ↔
    members ≠ [] ∧ ∀ member ∈ members, l.contains member = .ok true := by
  unfold checkCompound
  cases members with
  | nil => simp
  | cons member rest => simp [checkMembers_eq_ok_iff]

theorem check_eq_ok_iff : l.check name d = .ok () ↔ l.lookup? name = none ∧ l.Fits d := by
  unfold check
  cases l.lookup? name with
  | some old => simp
  | none =>
    cases d with
    | atomic size alignment =>
      simp only [Fits, Option.isSome_none, Bool.false_eq_true, ↓reduceIte, true_and]
      split_ifs <;> simp only [false_iff, true_iff] <;> omega
    | struct members => simp [Fits, checkCompound_eq_ok_iff]
    | union variants => simp [Fits, checkCompound_eq_ok_iff]

theorem accept_eq_ok_iff {offer : AnyOffer} :
    offer.accept limit = .ok d ↔ offer = .ofDefinition d := by
  have hregistry : ∀ offer : Offer, (Registry.accept limit offer).map AnyDefinition.ofDefinition =
      .ok d ↔ ∃ plain, offer = .ofDefinition plain ∧ AnyDefinition.ofDefinition plain = d := by
    intro offer
    simp only [← Offer.definition?_eq_some_iff, ← Registry.accept_eq_ok_iff limit]
    cases Registry.accept limit offer <;> simp [Except.map]
  cases offer with
  | atomic size alignment =>
    rw [AnyOffer.accept, hregistry]
    constructor
    · rintro ⟨plain, hplain, rfl⟩
      cases plain <;> cases hplain
      rfl
    · intro h
      cases d <;> cases h
      exact ⟨.atomic _ _, rfl, rfl⟩
  | struct members => cases d <;> simp [AnyOffer.accept, AnyOffer.ofDefinition]
  | union variants => cases d <;> simp [AnyOffer.accept, AnyOffer.ofDefinition]
  | other value =>
    rw [AnyOffer.accept, hregistry]
    constructor
    · rintro ⟨plain, hplain, _⟩
      cases plain <;> cases hplain
    · intro h
      cases d <;> cases h

/-- A call asks for an entry exactly when its offer is valid, under a name that is new. -/
theorem entry_eq_ok_iff {e : AnyEntry} : l.entry limit c = .ok e ↔
    c.name = .scalar e.name ∧ c.offer = .ofDefinition e.definition ∧
      l.lookup? e.name = none ∧ l.Fits e.definition := by
  rw [← @accept_eq_ok_iff limit, ← check_eq_ok_iff]
  obtain ⟨given, offer⟩ := c
  obtain ⟨name, d⟩ := e
  constructor
  · intro h
    unfold entry at h
    cases hoffer : offer.accept limit with
    | error failure =>
      simp only [hoffer] at h
      cases h
    | ok accepted =>
      cases given with
      | list items =>
        simp only [hoffer] at h
        cases h
      | scalar named =>
        cases hcheck : l.check named accepted with
        | error failure =>
          simp only [hoffer, key, bind, Except.bind, hcheck] at h
          cases h
        | ok _ =>
          simp only [hoffer, key, bind, Except.bind, hcheck] at h
          cases h
          exact ⟨rfl, rfl, hcheck⟩
  · rintro ⟨rfl, hoffer, hcheck⟩
    simp only at hoffer hcheck
    simp only [entry, hoffer, key, bind, Except.bind, hcheck]
    rfl

/-! ## Records that cannot be written -/

/-- The record of an entry cannot be written: a number in it has more digits than can be written,
or a member is no text. -/
inductive Unwritten : AnyEntry → Failure → Prop
  | name {n : Int} {d : AnyDefinition} (hlong : 4300 < (digits n.natAbs).length) :
      Unwritten ⟨.integer n, d⟩ .numeralTooLong
  | numbers {name : Scalar} {size alignment : Int}
      (hlong : 4300 < (digits size.natAbs).length ∨ 4300 < (digits alignment.natAbs).length) :
      Unwritten ⟨name, .atomic size alignment⟩ .numeralTooLong
  | member {name : Scalar} {d : AnyDefinition} {member : Datum} (hmember : member ∈ d.references)
      (hvalue : ∀ text, member ≠ .scalar (.text text))
      (hshort : ∀ n : Int, name = .integer n → (digits n.natAbs).length ≤ 4300) :
      Unwritten ⟨name, d⟩ .notText

theorem writable_eq_false_iff (n : Int) :
    writable .standard n = false ↔ 4300 < (digits n.natAbs).length := by
  simp only [writable, DigitLimit.admits, DigitLimit.standard, decide_eq_false_iff_not, Nat.not_le]

theorem scalar_writable_eq_false_iff (name : Scalar) : name.writable .standard = false ↔
    ∃ n : Int, name = .integer n ∧ 4300 < (digits n.natAbs).length := by
  cases name <;> simp [Scalar.writable, writable_eq_false_iff]

theorem isText_eq_true_iff (value : Datum) :
    isText value = true ↔ ∃ text, value = .scalar (.text text) := by
  cases value with
  | list items => simp [isText]
  | scalar value => cases value <;> simp [isText]

theorem all_isText_eq_false_iff (members : List Datum) : members.all isText = false ↔
    ∃ member ∈ members, ∀ text, member ≠ .scalar (.text text) := by
  rw [List.all_eq_false]
  simp only [isText_eq_true_iff, not_exists]

section

variable {failure : Failure}

/-- A name that can be written leaves it to the members of a definition. -/
theorem note_members (hshort : ∀ n : Int, name = .integer n → (digits n.natAbs).length ≤ 4300)
    (hd : ∀ size alignment, d ≠ .atomic size alignment) :
    (if d.references.all isText then (.ok () : Except Failure Unit) else .error .notText) =
      .error failure ↔ Unwritten ⟨name, d⟩ failure := by
  constructor
  · intro h
    split_ifs at h with hall
    cases h
    obtain ⟨member, hmember, hvalue⟩ :=
      (all_isText_eq_false_iff _).mp (Bool.eq_false_iff.mpr hall)
    exact .member hmember hvalue hshort
  · intro h
    cases h with
    | name hlong => exact absurd (hshort _ rfl) (Nat.not_le.mpr hlong)
    | numbers _ => exact absurd rfl (hd _ _)
    | member hmember hvalue _ =>
      rw [(all_isText_eq_false_iff _).mpr ⟨_, hmember, hvalue⟩]
      rfl

/-- A name that can be written leaves it to the numbers of an atomic type. -/
theorem note_numbers (hshort : ∀ n : Int, name = .integer n → (digits n.natAbs).length ≤ 4300)
    (size alignment : Int) :
    (if writable .standard size && writable .standard alignment then (.ok () : Except Failure Unit)
      else .error .numeralTooLong) = .error failure ↔
      Unwritten ⟨name, .atomic size alignment⟩ failure := by
  have hlong : (writable .standard size && writable .standard alignment) = false ↔
      4300 < (digits size.natAbs).length ∨ 4300 < (digits alignment.natAbs).length := by
    rw [Bool.and_eq_false_iff, writable_eq_false_iff, writable_eq_false_iff]
  constructor
  · intro h
    split_ifs at h with hboth
    cases h
    exact .numbers (hlong.mp (Bool.eq_false_iff.mpr hboth))
  · intro h
    cases h with
    | name hname => exact absurd (hshort _ rfl) (Nat.not_le.mpr hname)
    | numbers hnumbers =>
      rw [hlong.mpr hnumbers]
      rfl
    | member hmember _ _ => cases hmember

theorem note_eq_error_iff {e : AnyEntry} :
    note .standard e = .error failure ↔ Unwritten e failure := by
  obtain ⟨name, d⟩ := e
  cases hname : name.writable .standard with
  | true =>
    have hshort : ∀ n : Int, name = .integer n → (digits n.natAbs).length ≤ 4300 := by
      intro n hn
      refine Nat.not_lt.mp fun hlong => ?_
      rw [(scalar_writable_eq_false_iff name).mpr ⟨n, hn, hlong⟩] at hname
      cases hname
    unfold note
    simp only [hname, Bool.not_true, Bool.false_eq_true, ↓reduceIte]
    cases d with
    | atomic size alignment => exact note_numbers hshort size alignment
    | struct members => exact @note_members _ (.struct members) _ hshort fun _ _ h => by cases h
    | union variants => exact @note_members _ (.union variants) _ hshort fun _ _ h => by cases h
  | false =>
    obtain ⟨n, rfl, hlong⟩ := (scalar_writable_eq_false_iff name).mp hname
    have hnote : note .standard ⟨.integer n, d⟩ = .error .numeralTooLong := by
      simp [note, hname]
    rw [hnote]
    constructor
    · intro h
      cases h
      exact .name hlong
    · intro h
      cases h with
      | member _ _ hshort => exact absurd (hshort n rfl) (Nat.not_le.mpr hlong)
      | _ => rfl

end

/-- A call offers a valid definition under a new name, and its record fails. -/
def OffersUnwritten (l : Ledger) (c : AnyCall) (failure : Failure) : Prop :=
  ∃ name d, c.name = .scalar name ∧ c.offer = .ofDefinition d ∧ l.lookup? name = none ∧
    l.Fits d ∧ Unwritten ⟨name, d⟩ failure

/-! ## Names that are texts -/

theorem lookup?_ofRegistry (r : Registry) (name : String) :
    (ofRegistry r).lookup? (.text name) = (r.lookup? name).map .ofDefinition := by
  obtain ⟨entries⟩ := r
  induction entries with
  | nil => rfl
  | cons e older ih =>
    have hsame := Scalar.same_text e.name name
    by_cases hname : e.name = name
    · subst hname
      have hfirst := @lookup?_cons_of_same (ofRegistry ⟨older⟩)
        ⟨.text e.name, .ofDefinition e.definition⟩ (.text e.name) (by simp [hsame])
      rw [Registry.lookup?, definitionIn?_cons_self]
      exact hfirst
    · have hlater := @lookup?_cons_of_not_same (ofRegistry ⟨older⟩)
        ⟨.text e.name, .ofDefinition e.definition⟩ (.text name) (by simp [hsame, hname])
      rw [Registry.lookup?, definitionIn?_cons_of_ne older hname]
      exact hlater.trans ih

theorem contains_ofRegistry (r : Registry) (name : String) :
    (ofRegistry r).contains (.scalar (.text name)) = .ok (r.contains name) := by
  have hsome : ((ofRegistry r).lookup? (.text name)).isSome = (r.lookup? name).isSome := by
    rw [lookup?_ofRegistry, Option.isSome_map]
  exact congrArg Except.ok hsome

theorem checkMembers_ofRegistry (r : Registry) (members : List String) :
    (ofRegistry r).checkMembers (members.map AnyDefinition.ofText) =
      match members.find? fun n => !r.contains n with
      | some n => .error (.type (.unknown n))
      | none => .ok () := by
  induction members with
  | nil => rfl
  | cons member rest ih =>
    rw [List.map_cons, checkMembers, AnyDefinition.ofText, contains_ofRegistry, List.find?_cons]
    cases r.contains member with
    | true => exact ih
    | false => rfl

theorem checkCompound_ofRegistry (r : Registry) (members : List String) :
    (ofRegistry r).checkCompound (members.map AnyDefinition.ofText) =
      (r.checkMembers members).mapError .type := by
  unfold checkCompound Registry.checkMembers
  rw [checkMembers_ofRegistry, List.isEmpty_map]
  cases members.isEmpty with
  | true => rfl
  | false => cases members.find? fun n => !r.contains n <;> rfl

theorem check_ofRegistry (r : Registry) (name : String) (d : Definition) :
    (ofRegistry r).check (.text name) (.ofDefinition d) = (r.check name d).mapError .type := by
  unfold check Registry.check Registry.contains
  rw [lookup?_ofRegistry, Option.isSome_map]
  cases (r.lookup? name).isSome with
  | true => rfl
  | false =>
    cases d with
    | atomic size alignment =>
      simp only [AnyDefinition.ofDefinition, Bool.false_eq_true, ↓reduceIte]
      split_ifs <;> rfl
    | struct members => exact checkCompound_ofRegistry r members
    | union variants => exact checkCompound_ofRegistry r variants

theorem accept_ofOffer (limit : DigitLimit) (offer : Offer) :
    (AnyOffer.ofOffer offer).accept limit =
      (Registry.accept limit offer).map AnyDefinition.ofDefinition := by
  cases offer <;> rfl

theorem note_ofDefinition (limit : DigitLimit) (name : String) (d : Definition) :
    note limit ⟨.text name, .ofDefinition d⟩ =
      if d.writable limit then .ok () else .error .numeralTooLong := by
  have htexts : ∀ members : List String, (members.map AnyDefinition.ofText).all isText = true := by
    intro members
    rw [List.all_map]
    exact List.all_eq_true.mpr fun _ _ => rfl
  cases d with
  | atomic size alignment => rfl
  | struct members => exact if_pos (htexts members)
  | union variants => exact if_pos (htexts variants)

/-- Where all names are texts, a ledger is a registry: a call answers the same, and adds the
same. -/
theorem call_ofRegistry (limit : DigitLimit) (r : Registry) (c : Call) :
    (ofRegistry r).call limit (.ofCall c) =
      ((r.call limit c).1, ofRegistry (r.call limit c).2) := by
  have hentry : (ofRegistry r).entry limit (.ofCall c) =
      match Registry.accept limit c.offer with
      | .ok d => ((r.check c.name d).mapError .type).map fun _ => ⟨.text c.name, .ofDefinition d⟩
      | .error failure => .error failure := by
    unfold entry AnyCall.ofCall
    simp only [accept_ofOffer]
    cases Registry.accept limit c.offer with
    | error failure => rfl
    | ok d =>
      simp only [Except.map, bind, Except.bind, key, check_ofRegistry]
      cases r.check c.name d <;> rfl
  cases haccept : Registry.accept limit c.offer with
  | error failure =>
    have hcall : r.call limit c = (.error failure, r) := by
      simp [Registry.call, Registry.register, Logged.runFrom, Logged.runOn_bind, haccept]
    rw [haccept] at hentry
    rw [hcall, call, hentry]
  | ok d =>
    have hd := (Registry.accept_eq_ok_iff limit).mp haccept
    cases hcheck : r.check c.name d with
    | error fault =>
      simp only [haccept, hcheck] at hentry
      rw [Registry.call_of_check_error limit hd hcheck, call, hentry]
      rfl
    | ok _ =>
      simp only [haccept, hcheck] at hentry
      rw [Registry.call_of_check limit hd hcheck, call, hentry]
      simp only [Except.mapError, Except.map, note_ofDefinition]
      rfl

end Ledger

/-! ## The law -/

/-- A call that fails leaves the ledger as it was, whatever the failure is, and a call that
succeeds adds exactly the entry that it asks for. The one exception is a valid definition under a
new name whose record cannot be written: its entry is added, and then the call fails at the
record. -/
theorem only_an_unwritten_entry_is_added_by_a_failing_call (calls : List AnyCall) (c : AnyCall) :
    let l := Ledger.ofCalls .standard calls
    let answer := (l.call .standard c).1
    let after := (l.call .standard c).2
    (answer = .ok () → l.Adds c after) ∧
    (∀ failure, answer = .error failure → ¬ l.OffersUnwritten c failure → after = l) ∧
    (∀ failure, l.OffersUnwritten c failure → answer = .error failure ∧ l.Adds c after) := by
  intro l answer after
  cases hentry : l.entry .standard c with
  | error failure =>
    have hcall : l.call .standard c = (.error failure, l) := by
      simp only [Ledger.call, hentry]
    have hanswer : answer = .error failure := congrArg Prod.fst hcall
    have hafter : after = l := congrArg Prod.snd hcall
    refine ⟨fun hok => ?_, fun _ _ _ => hafter, fun other hoffers => ?_⟩
    · rw [hanswer] at hok
      cases hok
    · obtain ⟨name, d, hname, hoffer, hnew, hfits, _⟩ := hoffers
      have hok : l.entry .standard c = .ok ⟨name, d⟩ :=
        Ledger.entry_eq_ok_iff.mpr ⟨hname, hoffer, hnew, hfits⟩
      rw [hentry] at hok
      cases hok
  | ok e =>
    obtain ⟨hname, hoffer, hnew, hfits⟩ := Ledger.entry_eq_ok_iff.mp hentry
    have hcall : l.call .standard c = (Ledger.note .standard e, ⟨e :: l.entries⟩) := by
      simp only [Ledger.call, hentry]
    have hanswer : answer = Ledger.note .standard e := congrArg Prod.fst hcall
    have hafter : after = ⟨e :: l.entries⟩ := congrArg Prod.snd hcall
    have hadds : l.Adds c after :=
      ⟨e.name, e.definition, hname, hoffer, hafter ▸ Ledger.gains_cons hnew⟩
    refine ⟨fun _ => hadds, fun failure hfails hnone => ?_, fun failure hoffers => ⟨?_, hadds⟩⟩
    · have hunwritten := Ledger.note_eq_error_iff.mp (hanswer.symm.trans hfails)
      exact absurd ⟨e.name, e.definition, hname, hoffer, hnew, hfits, hunwritten⟩ hnone
    · obtain ⟨name, d, hother, hdefinition, hnew', hfits', hunwritten⟩ := hoffers
      have hsame : l.entry .standard c = .ok ⟨name, d⟩ :=
        Ledger.entry_eq_ok_iff.mpr ⟨hother, hdefinition, hnew', hfits'⟩
      rw [hentry] at hsame
      cases hsame
      exact hanswer.trans (Ledger.note_eq_error_iff.mpr hunwritten)

/-- There are numbers of more digits than any bound. -/
theorem exists_length_digits (most : Nat) :
    ∃ size : Int, 1 ≤ size ∧ most < (digits size.natAbs).length := by
  refine ⟨((10 ^ (most + 1) : Nat) : Int), ?_, ?_⟩
  · exact Int.ofNat_le.mpr (Nat.one_le_pow _ _ (by decide))
  · have := lt_length_digits_of_le (Nat.succ_pos most) (Nat.le_refl (10 ^ (most + 1)))
    rw [Int.natAbs_natCast]
    omega

/-- A number is registered under the name 1. -/
def oneCalls : List AnyCall := [⟨.scalar (.integer 1), .atomic (.integer 4) (.integer 4)⟩]

/-- What a call under a text answers then, and what it leaves behind. -/
def callOne (name : String) (offer : AnyOffer) : Except Failure Unit × Ledger :=
  (Ledger.ofCalls .standard oneCalls).call .standard ⟨.scalar (.text name), offer⟩

/-- A small type, a struct of a ghost, a type of a size that is too long, and a struct of the
name 1. -/
theorem the_long_type_is_added_by_a_failing_call :
    (callOne "int" (.atomic (.integer 4) (.integer 4))).2.names = [.integer 1, .text "int"] ∧
    (callOne "s" (.struct [.scalar (.text "ghost")])).2 = .ofCalls .standard oneCalls ∧
    (∃ size after, callOne "long" (.atomic (.integer size) (.integer 1)) =
      (.error .numeralTooLong, after) ∧ after.names = [.integer 1, .text "long"]) ∧
    ∃ after, callOne "s" (.struct [.scalar (.integer 1)]) = (.error .notText, after) ∧
      after.names = [.integer 1, .text "s"] := by
  obtain ⟨size, hsize, hlong⟩ := exists_length_digits 4300
  have hlaw := fun name offer => only_an_unwritten_entry_is_added_by_a_failing_call oneCalls
    ⟨.scalar (.text name), offer⟩
  refine ⟨?_, ?_, ⟨size, ?_⟩, ?_⟩
  · obtain ⟨name, d, hname, _, hgains⟩ :=
      (hlaw "int" (.atomic (.integer 4) (.integer 4))).1 (by decide)
    cases hname
    exact hgains.names_eq
  · refine (hlaw "s" (.struct [.scalar (.text "ghost")])).2.1 (.type (.unknown "ghost"))
      (by decide) ?_
    rintro ⟨name, d, _, _, _, _, hunwritten⟩
    cases hunwritten
  · obtain ⟨hfails, name, d, hname, _, hgains⟩ :=
      (hlaw "long" (.atomic (.integer size) (.integer 1))).2.2 .numeralTooLong
        ⟨.text "long", .atomic size 1, rfl, rfl, by decide, ⟨hsize, by decide⟩,
          .numbers (.inl hlong)⟩
    cases hname
    exact ⟨_, Prod.ext hfails rfl, hgains.names_eq⟩
  · have hone : (Ledger.ofCalls .standard oneCalls).contains (.scalar (.integer 1)) = .ok true := by
      decide
    obtain ⟨hfails, name, d, hname, _, hgains⟩ :=
      (hlaw "s" (.struct [.scalar (.integer 1)])).2.2 .notText
        ⟨.text "s", .struct [.scalar (.integer 1)], rfl, rfl, by decide, ⟨by simp, by simpa⟩,
          .member List.mem_cons_self (by simp) (by simp)⟩
    cases hname
    exact ⟨_, Prod.ext hfails rfl, hgains.names_eq⟩

end DataLayout
