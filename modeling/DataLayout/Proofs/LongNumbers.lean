-- The law of the lines that break off. A line answers in every session, except for the
-- description of a type whose numbers cannot be written. No line can ask for such a number by
-- itself, but sums and common multiples grow, so two lines are enough to get there.
import DataLayout.Proofs.Session

namespace DataLayout

open Console Logged Text

/-! ## What breaks off -/

namespace Registry

variable {settings : Settings} {r after : Registry}

/-- An action that was read fails for a long number only when it describes one. -/
theorem Executes.numeralTooLong_iff (h : WellFormed r.entries) {action : Action}
    {answer : Except Failure (Option Report × String)} (hread : action.writable .standard = true)
    (hexecutes : r.Executes .standard settings action answer after) :
    answer = .error .numeralTooLong ↔
      ∃ name, action = .describe name ∧ name ∈ r.names ∧ ¬ r.Describable .standard name := by
  cases hexecutes with
  | exit => simp
  | @describe name report hreport hwritable =>
    simp only [reduceCtorEq, false_iff, not_exists, not_and, not_not, Action.describe.injEq]
    rintro _ rfl hname
    by_contra hnot
    rcases report_of_not_describable h ((r.mem_names_iff name).mp hname) hnot with
      htooLong | ⟨other, hother, hunwritable⟩
    · rw [hreport] at htooLong
      cases htooLong
    · rw [hreport] at hother
      cases hother
      rw [hwritable] at hunwritable
      cases hunwritable
  | @unknown name hname =>
    have hnone : name ∉ r.names := (r.notMem_names_iff name).mpr hname
    simp [hnone]
  | @unwritten name hname hnot =>
    simpa using ⟨(r.mem_names_iff name).mpr hname, hnot⟩
  | add he _ =>
    simp only [reduceCtorEq, false_iff, not_exists]
    rintro name ⟨rfl, _⟩
    cases he
  | refuse he _ =>
    simp only [Except.error.injEq, reduceCtorEq, false_iff, not_exists]
    rintro name ⟨rfl, _⟩
    cases he
  | tooLong hlong =>
    rw [hread] at hlong
    cases hlong

end Registry

namespace Program

variable {settings : Settings} {r after : Registry} {line : String}

theorem Runs.numeralTooLong_iff (h : WellFormed r.entries)
    {answer : Except Failure (Bool × String)}
    (hruns : Runs .standard settings r line answer after) :
    answer = .error .numeralTooLong ↔ ∃ name, Action.parse line = .ok (.describe name) ∧
      name ∈ r.names ∧ ¬ r.Describable .standard name := by
  have hbreaks : ∀ {action executed}, Action.parse line = .ok action →
      r.Executes .standard settings action executed after →
      (executed = .error .numeralTooLong ↔ ∃ name, Action.parse line = .ok (.describe name) ∧
        name ∈ r.names ∧ ¬ r.Describable .standard name) := by
    intro action executed hparse hexecutes
    rw [hexecutes.numeralTooLong_iff h (Action.writable_of_parse hparse), hparse]
    simp
  cases hruns with
  | performed hparse hexecutes => simpa using hbreaks hparse hexecutes
  | refused hparse hexecutes _ => simpa using hbreaks hparse hexecutes
  | misread hparse _ => simp [hparse]
  | broken hparse hexecutes => simpa using hbreaks hparse hexecutes

end Program

open Program

/-! ## Two lines that get there -/

theorem digitRun_nines (n : Nat) : DigitRun (List.replicate n '9') (List.replicate n 9) := by
  induction n with
  | zero => exact .nil
  | succ n ih => exact .digit (by decide) ih

theorem ofDecimals_nines (n : Nat) : ofDecimals (List.replicate n 9) = 10 ^ n - 1 := by
  induction n with
  | zero => rfl
  | succ n ih =>
    have := Nat.pow_pos (n := n) (show 0 < 10 by decide)
    rw [List.replicate_succ, ofDecimals_cons, ih, List.length_replicate, Nat.pow_succ]
    omega

/-- As many nines as the limit admits denote a number. -/
theorem denotes_nines {n : Nat} (h : n < 4300) :
    Denotes (List.replicate (n + 1) '9') ((10 ^ (n + 1) - 1 : Nat) : Int) := by
  have hnumeral : Numeral (List.replicate (n + 1) '9') (List.replicate (n + 1) 9) :=
    .mk (by decide) (digitRun_nines n)
  have hlength : (List.replicate (n + 1) 9).length ≤ 4300 := by
    rw [List.length_replicate]
    exact h
  rw [← ofDecimals_nines]
  exact .plain hnumeral hlength

/-- A line that adds a number of the given count of nines. -/
def ninesLine (count : Nat) : String :=
  String.ofList ("atomic a ".toList ++ (List.replicate count '9' ++ " 1".toList))

theorem spaced_ninesLine {count : Nat} (h : IsWord (List.replicate count '9')) :
    Spaced (ninesLine count).toList
      ["atomic".toList, "a".toList, List.replicate count '9', "1".toList] := by
  have hline : (ninesLine count).toList = [' '].intercalate
      ["atomic".toList, "a".toList, List.replicate count '9', "1".toList] :=
    String.toList_ofList.trans (by simp [List.intercalate])
  rw [hline]
  refine spaced_intercalate (fun word hword => ?_) (by decide)
  simp only [List.mem_cons, List.not_mem_nil, or_false] at hword
  rcases hword with rfl | rfl | rfl | rfl
  · decide
  · decide
  · exact h
  · decide

theorem parse_ninesLine {n : Nat} (h : n < 4300) :
    Action.parse (ninesLine (n + 1)) = .ok (.addAtomic "a" ((10 ^ (n + 1) - 1 : Nat) : Int) 1) := by
  have hnines := denotes_nines h
  have hone : Command.count "1" = .ok 1 := by rfl
  have hverb : "atomic".toList.map Char.toLower = "atomic".toList := by decide
  apply Action.parse_of_renders
  refine ⟨"atomic", ["a", String.ofList (List.replicate (n + 1) '9'), "1"], hverb, ?_, ?_⟩
  · refine .addAtomic ?_ (Command.count_eq_ok_iff.mp hone)
    rwa [String.toList_ofList]
  · simpa only [List.map_cons, List.map_nil, String.toList_ofList] using
      spaced_ninesLine hnines.isWord

/-- The registry of a number and a pair of it. -/
def pairOf (size : Int) : Registry :=
  ⟨[⟨"s", .struct ["a", "a"]⟩, ⟨"a", .atomic size 1⟩]⟩

theorem wellFormed_pairOf {size : Int} (h : 1 ≤ size) : WellFormed (pairOf size).entries :=
  ⟨rfl, ⟨by simp, fun n hn => by simp_all [definitionIn?]⟩, rfl, ⟨h, by decide⟩, trivial⟩

/-- A pair of numbers is too long to be described when the sum is too long to be written. -/
theorem not_describable_pairOf {limit : DigitLimit} {size : Int} (h : 1 ≤ size)
    (hlong : writable limit (size + size) = false) : ¬ (pairOf size).Describable limit "s" := by
  intro hdescribable
  have hpair : (pairOf size).lookup? "s" = some (.struct ["a", "a"]) := rfl
  obtain ⟨report, hreport, _, hlayouts⟩ :=
    Registry.report_of_registered (wellFormed_pairOf h) hpair
  have hextent := Registry.extent_of_layoutOf (wellFormed_pairOf h) .packed hpair
    (hlayouts .packed)
  have hsum : (pairOf size).extent .unlimited .packed "s" = .ok ⟨size + (size + 0), 1⟩ := rfl
  have hpacked : size + size = (report.layout .packed).size := by
    rw [hsum, Int.add_zero] at hextent
    exact congrArg Extent.size (Except.ok.inj hextent)
  have hwritable := hdescribable.writable report hreport
  simp [Report.writable, Packing.reported, ← hpacked, hlong] at hwritable

/-- A line that adds a definition that passes the check leads to the registry with it. -/
theorem at_addition {settings : Settings} {r : Registry} {running : Bool}
    (h : WellFormed r.entries) {p : Program} (hp : p.At .standard r running) {line : String}
    {action : Action} (hparse : Action.parse line = .ok action) {e : Entry}
    (he : action.addition? = some e) (hcheck : r.check e.name e.definition = .ok ()) :
    (p.turn (runLine .standard settings line)).program.At .standard
      (r.insert e.name e.definition) running := by
  have hline : executeLine .standard settings line = execute .standard settings action := by
    unfold executeLine
    rw [hparse]
  have hexecutes : Leads (At .standard r running) _ (executeLine .standard settings line) _ :=
    hline ▸ leads_addition he (Action.writable_of_parse hparse) h hcheck
  have hleads : Leads (At .standard r running) _ (runLine .standard settings line) _ :=
    leads_tryCatch_ok _ (leads_bind_ok hexecutes (gives_pure (true, "")))
  exact (turn_of_leads hleads hp).2.2

/-- A line that adds a number, and a line that adds a pair of it. -/
theorem at_pairOf {settings : Settings} {line : String} {size : Int} (h : 1 ≤ size)
    (hline : Action.parse line = .ok (.addAtomic "a" size 1)) :
    ((start .empty).afterLines .standard settings [line, "struct s a a"]).At .standard
      (pairOf size) true := by
  have hpair : Action.parse "struct s a a" = .ok (.addStruct "s" ["a", "a"]) := by decide
  have hempty : WellFormed Registry.empty.entries := trivial
  have hfirst : Registry.empty.check "a" (.atomic size 1) = .ok () :=
    (Registry.check_eq_ok_iff _ _ _).mpr ⟨rfl, h, by decide⟩
  have hsecond : (Registry.empty.insert "a" (.atomic size 1)).check "s" (.struct ["a", "a"]) =
      .ok () := rfl
  exact at_addition (Registry.wellFormed_insert hempty hfirst)
    (at_addition hempty (at_start .empty) hline rfl hfirst) hpair rfl hsecond

theorem writable_eq_false_of_le {most n : Nat} (hmost : 0 < most) (h : 10 ^ most ≤ n) :
    writable (some most) n = false := by
  have hlength := lt_length_digits_of_le hmost h
  simpa [writable, DigitLimit.admits] using hlength

/-- Nines can be read, but their double has one more digit. -/
theorem nines_of_ninesLine {n : Nat} (h : n < 4300) : ∃ size : Int, 1 ≤ size ∧
    writable (some (n + 1)) (size + size) = false ∧
      Action.parse (ninesLine (n + 1)) = .ok (.addAtomic "a" size 1) := by
  have hten : 10 ≤ 10 ^ (n + 1) := Nat.le_self_pow (Nat.succ_ne_zero n) 10
  refine ⟨((10 ^ (n + 1) - 1 : Nat) : Int), by omega, ?_, parse_ninesLine h⟩
  rw [← Int.natCast_add]
  exact writable_eq_false_of_le (Nat.succ_pos n) (by omega)

/-! ## The law -/

/-- A line always answers, except that a registered type may have numbers that are too long to
be described. Such a line prints nothing, and the session goes on as if the line had not been
there. -/
theorem only_a_description_can_break_off (settings : Settings) (calls : List Call)
    (lines : List String) (line : String) :
    let p := (start (.ofCalls .standard calls)).afterLines .standard settings lines
    let t := p.turn (runLine .standard settings line)
    ((∃ succeeded, t.answer = .ok succeeded) ∨ t.answer = .error .numeralTooLong) ∧
    (t.answer = .error .numeralTooLong ↔ ∃ name, Action.parse line = .ok (.describe name) ∧
      name ∈ p.registry.names ∧ ¬ p.registry.Describable .standard name) ∧
    (t.answer = .error .numeralTooLong → t.printed = "" ∧ t.program.running = p.running ∧
      p.Alike .standard settings t.program) := by
  intro p t
  obtain ⟨r, running, h, hp, _⟩ := at_afterLines .standard settings
    (Registry.wellFormed_ofCalls .standard calls) (at_start _) lines
  obtain ⟨answer, after, hruns, hleads⟩ := leads_runLine .standard settings h line
  obtain ⟨hanswer, hprinted, hafter⟩ := turn_of_leads (hleads running) hp
  change t.answer = _ at hanswer
  change t.printed = _ at hprinted
  have hiff := hruns.numeralTooLong_iff h
  have hfails : (∃ given, answer = .ok given) ∨ answer = .error .numeralTooLong := by
    cases hruns <;> simp
  rw [hanswer, hprinted, show p.registry = r from hp.registry_eq, ← hiff]
  rcases hfails with ⟨⟨succeeded, printed⟩, rfl⟩ | rfl
  · exact ⟨Or.inl ⟨succeeded, rfl⟩, by simp [Except.map], fun hlong => by cases hlong⟩
  · obtain ⟨rfl, hstays⟩ := hruns.of_not_performed (by simp [Except.map])
    rw [hstays, Bool.not_false, Bool.and_true] at hafter
    exact ⟨Or.inr rfl, by simp [Except.map], fun _ =>
      ⟨rfl, hafter.running_eq.trans hp.running_eq.symm, hp.alike h hafter⟩⟩

/-- A number of as many digits as can be read, and a pair of it. -/
def longLines : List String := [ninesLine 4300, "struct s a a"]

/-- Two lines that are answered lead to a third one that is not. -/
theorem a_description_breaks_off :
    let p := (start (.ofCalls .standard [])).afterLines .standard ⟨100, false, .none⟩ longLines
    (p.turn (runLine .standard ⟨100, false, .none⟩ "describe s")).answer =
      .error .numeralTooLong := by
  intro p
  have hdescribe : Action.parse "describe s" = .ok (.describe "s") := by decide
  obtain ⟨size, hpos, hlong, hline⟩ := nines_of_ninesLine (n := 4299) (by decide)
  have hp : p.At .standard (pairOf size) true := at_pairOf hpos hline
  have hbreaks : (p.turn (runLine .standard ⟨100, false, .none⟩ "describe s")).answer =
      .error .numeralTooLong ↔ ∃ name, Action.parse "describe s" = .ok (.describe name) ∧
        name ∈ p.registry.names ∧ ¬ p.registry.Describable .standard name :=
    (only_a_description_can_break_off ⟨100, false, .none⟩ [] longLines "describe s").2.1
  -- The lines are not looked at again.
  clear_value p
  refine hbreaks.mpr ⟨"s", hdescribe, ?_, ?_⟩
  · rw [hp.registry_eq]
    exact List.mem_cons_of_mem _ List.mem_cons_self
  · rw [hp.registry_eq]
    exact not_describable_pairOf hpos hlong

end DataLayout
