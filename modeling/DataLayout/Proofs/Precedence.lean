-- The law of the order of the rules. A registration may break several rules at once, and then it
-- is refused for the one that comes first. A registration that is refused leaves no trace, and
-- one that breaks no rule adds its entry behind all others.
import Mathlib.Order.Nat
import DataLayout.Proofs.Registration
import DataLayout.Workshop

namespace DataLayout

open Text

/-! ## Without a limit every value is written -/

namespace Datum

mutual

theorem writable_unlimited : (d : Datum) → d.writable .unlimited = true
  | .scalar s => by cases s <;> rfl
  | .list items => allWritable_unlimited items

theorem allWritable_unlimited : (items : List Datum) → allWritable .unlimited items = true
  | [] => rfl
  | d :: rest => by
    simp only [allWritable, writable_unlimited d, allWritable_unlimited rest, Bool.and_self]

end

end Datum

theorem Offer.writable_unlimited (offer : Offer) : offer.writable .unlimited = true := by
  cases offer with
  | atomic size alignment => cases size <;> cases alignment <;> rfl
  | struct names => rfl
  | union names => rfl
  | other value => exact value.writable_unlimited

/-! ## The rules -/

/-- What a registration has to keep. -/
inductive Rule
  | definition
  | integers
  | newName
  | positiveSize
  | positiveAlignment
  | members
  | knownMembers
  deriving DecidableEq

/-- The place of a rule in the order of the rules. -/
def Rule.place : Rule → Nat
  | .definition => 1
  | .integers => 2
  | .newName => 3
  | .positiveSize => 4
  | .positiveAlignment => 5
  | .members => 6
  | .knownMembers => 7

namespace Registry

/-- A call breaks a rule, with the failure that this rule asks for. Each rule is about the call
alone, whatever other rules the call breaks. Among unknown members the first one is named, and the
name that is to be registered is not known yet. -/
inductive Breaks (r : Registry) (c : Call) : Rule → Failure → Prop
  | definition {value : Datum} (hoffer : c.offer = .other value) :
      r.Breaks c .definition (.notADefinition c.offer.text)
  | integers {size alignment : Scalar} (hoffer : c.offer = .atomic size alignment)
      (hnot : ¬ ∃ m n : Int, size = .integer m ∧ alignment = .integer n) :
      r.Breaks c .integers (.notIntegers c.offer.text)
  | newName (hname : c.name ∈ r.names) : r.Breaks c .newName (.type ⟨.redefinition, none⟩)
  | positiveSize {size : Int} {alignment : Scalar}
      (hoffer : c.offer = .atomic (.integer size) alignment) (hsize : size ≤ 0) :
      r.Breaks c .positiveSize (.type ⟨.zeroSize, none⟩)
  | positiveAlignment {size : Scalar} {alignment : Int}
      (hoffer : c.offer = .atomic size (.integer alignment)) (halignment : alignment ≤ 0) :
      r.Breaks c .positiveAlignment (.type ⟨.zeroAlignment, none⟩)
  | members {d : Definition} (hoffer : c.offer = .ofDefinition d) (hd : d.kind ≠ .atomic)
      (hnone : d.references = []) : r.Breaks c .members (.type ⟨.emptyCompound, none⟩)
  | knownMembers {d : Definition} {before after : List String} {n : String}
      (hoffer : c.offer = .ofDefinition d) (hsplit : d.references = before ++ n :: after)
      (hbefore : ∀ m ∈ before, m ∈ r.names) (hn : n ∉ r.names) :
      r.Breaks c .knownMembers (.type (.unknown n))

/-- A failure is that of the first of the broken rules. -/
def RefusedFor (r : Registry) (c : Call) (failure : Failure) : Prop :=
  ∃ rule, r.Breaks c rule failure ∧ ∀ other otherFailure, r.Breaks c other otherFailure →
    rule.place ≤ other.place

variable {r : Registry} {c : Call}

open Classical in
/-- If any rule is broken, one of the broken rules is the first. -/
theorem exists_refusedFor_of_breaks {rule : Rule} {failure : Failure}
    (h : r.Breaks c rule failure) : ∃ failure, r.RefusedFor c failure := by
  have hsome : ∃ place rule failure, r.Breaks c rule failure ∧ rule.place = place :=
    ⟨_, rule, failure, h, rfl⟩
  obtain ⟨first, failure, hfirst, hplace⟩ := Nat.find_spec hsome
  refine ⟨failure, first, hfirst, fun other otherFailure hother => ?_⟩
  rw [hplace]
  exact Nat.find_min' hsome ⟨other, otherFailure, hother, rfl⟩

/-- No rule is broken that comes before the first broken one. -/
theorem not_breaks_of_first {rule earlier : Rule} {failure : Failure}
    (hfirst : ∀ other otherFailure, r.Breaks c other otherFailure → rule.place ≤ other.place)
    (hearlier : earlier.place < rule.place) : ¬ r.Breaks c earlier failure := fun hbreaks => by
  have := hfirst earlier failure hbreaks
  omega

/-! ## Offers that are no definition -/

theorem call_of_not_definition (h : c.offer.definition? = none) :
    r.call .unlimited c =
      (.error (if c.offer.isDefinition then .notIntegers c.offer.text
        else .notADefinition c.offer.text), r) := by
  unfold call register accept Logged.runFrom
  simp only [h, Offer.writable_unlimited, Logged.runOn_bind]
  cases c.offer.isDefinition <;> rfl

/-- A call that keeps the first two rules offers a definition. -/
theorem exists_definition_of_not_breaks
    (hdefinition : ∀ failure, ¬ r.Breaks c .definition failure)
    (hintegers : ∀ failure, ¬ r.Breaks c .integers failure) :
    ∃ d, c.offer = .ofDefinition d := by
  cases hoffer : c.offer with
  | atomic size alignment =>
    by_cases hboth : ∃ m n : Int, size = .integer m ∧ alignment = .integer n
    · obtain ⟨m, n, rfl, rfl⟩ := hboth
      exact ⟨.atomic m n, rfl⟩
    · exact absurd (.integers hoffer hboth) (hintegers _)
  | struct names => exact ⟨.struct names, rfl⟩
  | union names => exact ⟨.union names, rfl⟩
  | other value => exact absurd (.definition hoffer) (hdefinition _)

/-! ## Definitions that are refused -/

/-- A call that breaks a rule is refused for the first such rule, and changes nothing. -/
theorem call_of_refusedFor {failure : Failure} (h : r.RefusedFor c failure) :
    r.call .unlimited c = (.error failure, r) := by
  obtain ⟨rule, hbreaks, hfirst⟩ := h
  have hkeeps : ∀ {earlier : Rule}, earlier.place < rule.place → ∀ failure,
      ¬ r.Breaks c earlier failure := fun hearlier _ => not_breaks_of_first hfirst hearlier
  -- Behind the first two rules a definition is offered, behind the third one its name is new.
  have hoffers : Rule.place .integers < rule.place → ∃ d, c.offer = .ofDefinition d :=
    fun hbehind => exists_definition_of_not_breaks
      (hkeeps (Nat.lt_trans (by decide) hbehind)) (hkeeps hbehind)
  have hnew : Rule.place .newName < rule.place → c.name ∉ r.names := fun hbehind hname =>
    hkeeps hbehind _ (.newName hname)
  have hrefused : ∀ {d : Definition} {fault : TypeFault}, c.offer = .ofDefinition d →
      r.check c.name d = .error fault → r.call .unlimited c = (.error (.type fault), r) :=
    fun hoffer hcheck =>
      call_of_check_error .unlimited (Offer.definition?_eq_some_iff.mpr hoffer) hcheck
  cases hbreaks with
  | @definition value hoffer =>
    rw [call_of_not_definition (by rw [hoffer]; rfl), if_neg (by simp [hoffer, Offer.isDefinition])]
  | @integers size alignment hoffer hnot =>
    have hnone : c.offer.definition? = none := by
      rw [Option.eq_none_iff_forall_ne_some]
      intro d hd
      rw [Offer.definition?_eq_some_iff.mp hd] at hoffer
      cases d <;> cases hoffer
      exact hnot ⟨_, _, rfl, rfl⟩
    rw [call_of_not_definition hnone, if_pos (by rw [hoffer]; rfl)]
  | newName hname =>
    obtain ⟨d, hoffer⟩ := hoffers (by decide)
    exact hrefused hoffer (check_of_mem_names hname d)
  | @positiveSize size alignment hoffer hsize =>
    obtain ⟨d, hd⟩ := hoffers (by decide)
    refine hrefused hd ?_
    rw [hoffer] at hd
    cases d <;> cases hd
    rw [check_atomic (hnew (by decide))]
    exact if_pos hsize
  | @positiveAlignment size alignment hoffer halignment =>
    obtain ⟨d, hd⟩ := hoffers (by decide)
    refine hrefused hd ?_
    have hbefore : Rule.positiveSize.place < Rule.positiveAlignment.place := by decide
    have hpositive := hkeeps hbefore
    rw [hoffer] at hd
    cases d <;> cases hd
    rename_i size
    rw [check_atomic (hnew (by decide))]
    have hsize : ¬ size ≤ 0 := fun hsize => hpositive _ (.positiveSize hoffer hsize)
    exact (if_neg hsize).trans (if_pos halignment)
  | @members d hoffer hd hnone =>
    refine hrefused hoffer ?_
    rw [check_compound (hnew (by decide)) hd, hnone]
    rfl
  | @knownMembers d before after n hoffer hsplit hbefore hn =>
    have hd : d.kind ≠ .atomic := by
      rintro hd
      cases d with
      | atomic size alignment => cases before <;> cases hsplit
      | struct names => cases hd
      | union names => cases hd
    refine hrefused hoffer ?_
    rw [check_compound (hnew (by decide)) hd, hsplit, checkMembers_of_unknown hbefore hn]

/-- A definition that does not pass the check breaks the rule of its fault. -/
theorem breaks_of_check_error {d : Definition} (hoffer : c.offer = .ofDefinition d)
    {fault : TypeFault} (h : r.check c.name d = .error fault) :
    ∃ rule, r.Breaks c rule (.type fault) := by
  by_cases hname : c.name ∈ r.names
  · rw [check_of_mem_names hname] at h
    cases h
    exact ⟨_, .newName hname⟩
  by_cases hd : d.kind = .atomic
  · cases d <;> cases hd
    rw [check_atomic hname] at h
    split_ifs at h with hsize halignment
    · cases h
      exact ⟨_, .positiveSize hoffer hsize⟩
    · cases h
      exact ⟨_, .positiveAlignment hoffer halignment⟩
  · rw [check_compound hname hd] at h
    rcases r.checkMembers_cases d.references with ⟨hnone, hfault⟩ |
      ⟨before, n, after, hsplit, hbefore, hn, hfault⟩ | ⟨_, _, hok⟩
    · rw [hfault] at h
      cases h
      exact ⟨_, .members hoffer hd hnone⟩
    · rw [hfault] at h
      cases h
      exact ⟨_, .knownMembers hoffer hsplit hbefore hn⟩
    · rw [hok] at h
      cases h

/-- A call that breaks no rule adds its entry. -/
theorem call_of_not_breaks (h : ∀ rule failure, ¬ r.Breaks c rule failure) :
    ∃ d, c.offer = .ofDefinition d ∧ r.check c.name d = .ok () ∧
      r.call .unlimited c = (.ok (), r.insert c.name d) := by
  obtain ⟨d, hoffer⟩ := exists_definition_of_not_breaks (h .definition) (h .integers)
  have hcheck : r.check c.name d = .ok () := by
    cases hcheck : r.check c.name d with
    | ok _ => rfl
    | error fault =>
      obtain ⟨rule, hbreaks⟩ := breaks_of_check_error hoffer hcheck
      exact absurd hbreaks (h rule _)
  have hwritable : d.writable .unlimited = true := by cases d <;> rfl
  have hcall := call_of_check .unlimited (Offer.definition?_eq_some_iff.mpr hoffer) hcheck
  rw [if_pos hwritable] at hcall
  exact ⟨d, hoffer, hcheck, hcall⟩

end Registry

/-! ## The law -/

/-- A call to register is decided by the first rule that it breaks, and each rule is broken or
kept whatever the others are. A call that breaks none adds exactly its entry, behind all others.
So a type can never refer to itself: its own name is not known yet, or it is taken. A call that
fails leaves the whole workshop as it was: the names, every look-up, and all that any engine
answers and remembers. It makes no difference how the registry was filled. -/
theorem the_first_broken_rule_decides_a_registration (w : Workshop) (c : Call) :
    let r := w.registry
    let answer := (r.call .unlimited c).1
    let after := w.after .unlimited (.register c)
    (∀ failure, answer = .error failure ↔ r.RefusedFor c failure) ∧
    (answer = .ok () ↔ ∀ rule failure, ¬ r.Breaks c rule failure) ∧
    (answer = .ok () → ∃ d, c.offer = .ofDefinition d ∧ r.Gains c.name d after.registry ∧
      c.name ∉ d.references ∧ after = { w with registry := r.insert c.name d }) ∧
    ∀ failure, answer = .error failure → after = w := by
  intro r answer after
  have hrefused : ∀ failure, r.RefusedFor c failure → answer = .error failure ∧ after = w := by
    intro failure hfailure
    have hcall : r.call .unlimited c = (.error failure, r) := Registry.call_of_refusedFor hfailure
    have hafter : after = { w with registry := (r.call .unlimited c).2 } := rfl
    refine ⟨congrArg Prod.fst hcall, ?_⟩
    rw [hafter, hcall]
  by_cases hkeeps : ∀ rule failure, ¬ r.Breaks c rule failure
  · obtain ⟨d, hoffer, hcheck, hcall⟩ := Registry.call_of_not_breaks hkeeps
    have hanswer : answer = .ok () := congrArg Prod.fst hcall
    have hafter : after = { w with registry := r.insert c.name d } :=
      congrArg (fun result => { w with registry := result.2 }) hcall
    have hgains : r.Gains c.name d after.registry := hafter ▸ Registry.gains_insert hcheck
    have hself : c.name ∉ d.references := fun hmem => by
      obtain ⟨_, hfits⟩ := (Registry.check_eq_ok_iff r c.name d).mp hcheck
      exact hgains.new ((r.mem_names_iff c.name).mpr (hfits.isSome_of_mem hmem))
    refine ⟨fun failure => ⟨fun hfails => ?_, fun hfailure => (hrefused failure hfailure).1⟩,
      ⟨fun _ => hkeeps, fun _ => hanswer⟩, fun _ => ⟨d, hoffer, hgains, hself, hafter⟩,
      fun failure hfails => ?_⟩
    · rw [hanswer] at hfails
      cases hfails
    · rw [hanswer] at hfails
      cases hfails
  · push Not at hkeeps
    obtain ⟨rule, failure, hbreaks⟩ := hkeeps
    obtain ⟨first, hfirst⟩ := Registry.exists_refusedFor_of_breaks hbreaks
    obtain ⟨hanswer, hafter⟩ := hrefused first hfirst
    refine ⟨fun other => ⟨fun hother => ?_, fun hother => (hrefused other hother).1⟩,
      ⟨fun hok => ?_, fun hnone => absurd hbreaks (hnone rule failure)⟩, fun hok => ?_,
      fun _ _ => hafter⟩
    · rw [hanswer] at hother
      cases hother
      exact hfirst
    · rw [hanswer] at hok
      cases hok
    · rw [hanswer] at hok
      cases hok

/-- A number that is registered, and an engine that was asked about it. -/
def measuredSteps : List Workshop.Step :=
  [.register ⟨"int", .atomic (.integer 4) (.integer 4)⟩, .newEngine,
    .ask 0 (.size .optimized (.struct ["int", "int"]))]

/-- The name is taken before the numbers count, a flag is refused before the name counts, and a
struct of itself is refused for its own name and not for the ghost behind it. -/
theorem a_struct_of_itself_is_refused_for_its_own_name :
    let w := Workshop.run .unlimited measuredSteps
    w.registry.RefusedFor ⟨"int", .atomic (.integer 0) (.integer 0)⟩
      (.type ⟨.redefinition, none⟩) ∧
    w.registry.RefusedFor ⟨"int", .atomic (.integer 0) (.flag true)⟩
      (.notIntegers "Atomic[0, True]") ∧
    w.registry.RefusedFor ⟨"loop", .struct ["int", "loop", "ghost"]⟩
      (.type (.unknown "loop")) ∧
    w.after .unlimited (.register ⟨"loop", .struct ["int", "loop", "ghost"]⟩) = w ∧
    ∃ d, Offer.struct ["int"] = .ofDefinition d ∧ w.registry.Gains "box" d
      (w.after .unlimited (.register ⟨"box", .struct ["int"]⟩)).registry := by
  intro w
  obtain ⟨hzero, _⟩ := the_first_broken_rule_decides_a_registration w
    ⟨"int", .atomic (.integer 0) (.integer 0)⟩
  obtain ⟨hflag, _⟩ := the_first_broken_rule_decides_a_registration w
    ⟨"int", .atomic (.integer 0) (.flag true)⟩
  obtain ⟨hloop, _, _, hkept⟩ := the_first_broken_rule_decides_a_registration w
    ⟨"loop", .struct ["int", "loop", "ghost"]⟩
  obtain ⟨_, _, hbox, _⟩ := the_first_broken_rule_decides_a_registration w
    ⟨"box", .struct ["int"]⟩
  have hunknown : (w.registry.call .unlimited ⟨"loop", .struct ["int", "loop", "ghost"]⟩).1 =
      .error (.type (.unknown "loop")) := by
    decide +kernel
  obtain ⟨d, hd, hgains, _⟩ := hbox (by decide +kernel)
  exact ⟨(hzero _).mp (by decide +kernel), (hflag _).mp (by decide +kernel),
    (hloop _).mp hunknown, hkept _ hunknown, d, hd, hgains⟩

end DataLayout
