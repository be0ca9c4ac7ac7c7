-- The laws of plain text reports. What is typed in as a name is a word, and so are all names of a
-- session. A report on such names is told apart from every other one by its text: its lines are
-- found again between the line ends, and the names of an ordering between the blanks.
import DataLayout.Proofs.Prediction
import DataLayout.Proofs.Session

namespace DataLayout

open Console Text

/-! ## Texts that are put together -/

/-- Lines without a line end are found again in the text that they make. -/
theorem lines_inj {lines others : List String} (hne : lines ≠ []) (hothers : others ≠ [])
    (h : ∀ line ∈ lines, '\n' ∉ line.toList) (h' : ∀ line ∈ others, '\n' ∉ line.toList) :
    "\n".intercalate lines = "\n".intercalate others ↔ lines = others := by
  have hsplit : ∀ {lines : List String}, lines ≠ [] → (∀ line ∈ lines, '\n' ∉ line.toList) →
      ("\n".intercalate lines).toList.splitOn '\n' = lines.map String.toList := by
    intro lines hne h
    rw [String.toList_intercalate]
    exact List.splitOn_intercalate '\n' (by simpa using h) (by simpa using hne)
  refine ⟨fun heq => ?_, fun heq => heq ▸ rfl⟩
  have hlines := hsplit hne h
  rw [heq, hsplit hothers h'] at hlines
  exact (List.map_injective_iff.mpr fun _ _ => String.toList_inj.mp) hlines.symm

theorem mem_of_mem_intercalate {α : Type} {a : α} {sep : List α} {parts : List (List α)}
    (h : a ∈ sep.intercalate parts) : a ∈ sep ∨ ∃ part ∈ parts, a ∈ part := by
  induction parts with
  | nil => cases h
  | cons part rest ih =>
    cases rest with
    | nil => exact Or.inr ⟨part, List.mem_cons_self, by simpa using h⟩
    | cons other rest =>
      rw [List.intercalate_cons_cons, List.mem_append, List.mem_append] at h
      rcases h with (h | h) | h
      · exact Or.inr ⟨part, List.mem_cons_self, h⟩
      · exact Or.inl h
      · rcases ih h with h | ⟨later, hlater, h⟩
        · exact Or.inl h
        · exact Or.inr ⟨later, List.mem_cons_of_mem _ hlater, h⟩

/-- The names of a row, each one with the comma behind it. -/
def withCommas : List (List Char) → List (List Char)
  | [] => []
  | [name] => [name]
  | name :: other :: rest => (name ++ [',']) :: withCommas (other :: rest)

theorem length_withCommas (names : List (List Char)) :
    (withCommas names).length = names.length := by
  induction names with
  | nil => rfl
  | cons name rest ih =>
    cases rest with
    | nil => rfl
    | cons other rest => exact congrArg (· + 1) ih

theorem withCommas_inj {names others : List (List Char)} :
    withCommas names = withCommas others ↔ names = others := by
  refine ⟨fun h => ?_, congrArg withCommas⟩
  have hlength : names.length = others.length := by
    rw [← length_withCommas, h, length_withCommas]
  induction names generalizing others with
  | nil => exact (List.length_eq_zero_iff.mp hlength.symm).symm
  | cons name rest ih =>
    cases others with
    | nil => cases hlength
    | cons other later =>
      have hrest : rest.length = later.length := Nat.succ.inj hlength
      -- Either both names are the last ones of their rows, or both have a comma.
      match rest, later, hrest with
      | [], [], _ => exact h
      | second :: more, second' :: more', hrest =>
        obtain ⟨hname, hmore⟩ := List.cons.inj h
        rw [List.append_cancel_right hname, ih hmore hrest]

theorem intercalate_withCommas (names : List (List Char)) :
    [' '].intercalate (withCommas names) = [',', ' '].intercalate names := by
  induction names with
  | nil => rfl
  | cons name rest ih =>
    cases rest with
    | nil => rfl
    | cons other rest =>
      have hne : withCommas (other :: rest) ≠ [] := by
        rw [← List.length_pos_iff, length_withCommas]
        exact Nat.succ_pos _
      rw [withCommas, List.intercalate_cons_of_ne_nil hne, ih, List.intercalate_cons_cons,
        List.append_assoc name]
      rfl

theorem isWord_withCommas {names : List (List Char)} (h : ∀ name ∈ names, IsWord name) :
    ∀ name ∈ withCommas names, IsWord name := by
  induction names with
  | nil => exact h
  | cons name rest ih =>
    obtain ⟨hname, hrest⟩ := List.forall_mem_cons.mp h
    cases rest with
    | nil => exact h
    | cons other rest =>
      refine List.forall_mem_cons.mpr ⟨⟨by simp, ?_⟩, ih hrest⟩
      intro c hc
      rcases List.mem_append.mp hc with hc | hc
      · exact hname.2 c hc
      · obtain rfl := List.mem_singleton.mp hc
        decide

/-- Words in a row are found again, whatever commas they have in them. -/
theorem row_inj {names others : List String} (h : ∀ name ∈ names, IsWord name.toList)
    (h' : ∀ name ∈ others, IsWord name.toList) :
    ", ".intercalate names = ", ".intercalate others ↔ names = others := by
  have hwords : ∀ {names : List String}, (∀ name ∈ names, IsWord name.toList) →
      words (", ".intercalate names).toList = withCommas (names.map String.toList) := by
    intro names h
    have hcommas := isWord_withCommas (List.forall_mem_map.mpr h)
    have hrow : (", ".intercalate names).toList =
        [' '].intercalate (withCommas (names.map String.toList)) := by
      rw [String.toList_intercalate, intercalate_withCommas]
      rfl
    rw [hrow]
    exact words_eq_iff.mpr (spaced_intercalate hcommas (by decide))
  refine ⟨fun heq => ?_, fun heq => heq ▸ rfl⟩
  have hnames := hwords h
  rw [heq, hwords h', withCommas_inj] at hnames
  exact (List.map_injective_iff.mpr fun _ _ => String.toList_inj.mp) hnames.symm

/-! ## Reports -/

namespace Report

/-- The name of a report is a word, and so are the names in its ordering. -/
structure Worded (r : Report) : Prop where
  name : IsWord r.name.toList
  ordering : ∀ names, r.ordering = some names → ∀ n ∈ names, IsWord n.toList

/-- The lines on a layout. -/
def layoutLines (p : Packing) (l : ModeLayout) : List String :=
  ["   * " ++ p.heading ++ ":",
    "      + Size: " ++ String.ofList (numeral l.size),
    "      + Alignment: " ++ String.ofList (numeral l.alignment),
    "      + Loss: " ++ String.ofList (numeral l.loss)]

/-- The line on an ordering, if there is one. -/
def orderingLines : Option (List String) → List String
  | some names => ["      + Ordering: " ++ ", ".intercalate names]
  | none => []

theorem lines_eq (r : Report) :
    r.lines = ["Symbol: " ++ r.name, r.kind.heading ++ ":"] ++
      (layoutLines .optimized r.optimized ++ (orderingLines r.ordering ++
        (layoutLines .unpacked r.unpacked ++ layoutLines .packed r.packed))) := by
  unfold lines packingLines
  cases r.ordering <;> rfl

theorem layoutLines_inj {p : Packing} {l other : ModeLayout} :
    layoutLines p l = layoutLines p other ↔ l = other := by
  refine ⟨fun h => ?_, congrArg (layoutLines p)⟩
  simp only [layoutLines, List.cons.injEq, String.append_right_inj, String.ofList_inj,
    numeral_inj] at h
  obtain ⟨_, hsize, halign, hloss, _⟩ := h
  cases l
  cases other
  exact (ModeLayout.mk.injEq ..).mpr ⟨hsize, halign, hloss⟩

theorem orderingLines_inj {ordering other : Option (List String)}
    (h : ∀ names, ordering = some names → ∀ n ∈ names, IsWord n.toList)
    (h' : ∀ names, other = some names → ∀ n ∈ names, IsWord n.toList) :
    orderingLines ordering = orderingLines other ↔ ordering = other := by
  cases ordering with
  | none => cases other <;> simp [orderingLines]
  | some names =>
    cases other with
    | none => simp [orderingLines]
    | some others =>
      simp [orderingLines, String.append_right_inj, row_inj (h names rfl) (h' others rfl)]

theorem kind_heading_inj {kind other : Kind} : kind.heading = other.heading ↔ kind = other := by
  cases kind <;> cases other <;> decide

/-- A line of a report on words has no line end in it. -/
theorem Worded.notMem_of_mem_lines {r : Report} (h : r.Worded) :
    ∀ line ∈ r.lines, '\n' ∉ line.toList := by
  have hword : ∀ {word : List Char}, IsWord word → '\n' ∉ word := by
    intro word hword hmem
    exact absurd (hword.2 _ hmem) (by decide)
  have hlayout : ∀ (p : Packing) (l : ModeLayout), ∀ line ∈ layoutLines p l,
      '\n' ∉ line.toList := by
    have hnumeral : ∀ n : Int, '\n' ∉ numeral n := fun n => hword (isWord_numeral n)
    intro p l
    cases p <;> simp [layoutLines, Packing.heading, hnumeral]
  have hordering : ∀ line ∈ orderingLines r.ordering, '\n' ∉ line.toList := by
    cases hnames : r.ordering with
    | none => exact List.forall_mem_nil _
    | some names =>
      refine List.forall_mem_singleton.mpr fun hmem => ?_
      rw [String.toList_append, String.toList_intercalate, List.mem_append] at hmem
      rcases hmem with hmem | hmem
      · exact absurd hmem (by decide)
      · rcases mem_of_mem_intercalate hmem with hmem | ⟨_, hpart, hmem⟩
        · exact absurd hmem (by decide)
        · obtain ⟨n, hn, rfl⟩ := List.mem_map.mp hpart
          exact hword (h.ordering names hnames n hn) hmem
  have hheading : ∀ line ∈ ["Symbol: " ++ r.name, r.kind.heading ++ ":"],
      '\n' ∉ line.toList := by
    have hname := hword h.name
    cases r.kind <;> simp [Kind.heading, hname]
  intro line hline
  rw [lines_eq] at hline
  simp only [List.mem_append] at hline
  rcases hline with hline | hline | hline | hline | hline
  · exact hheading line hline
  · exact hlayout _ _ line hline
  · exact hordering line hline
  · exact hlayout _ _ line hline
  · exact hlayout _ _ line hline

/-- The lines of a report settle all that is in it. -/
theorem Worded.lines_inj {r other : Report} (h : r.Worded) (h' : other.Worded) :
    r.lines = other.lines ↔ r = other := by
  refine ⟨fun heq => ?_, congrArg lines⟩
  have hlength : (orderingLines r.ordering).length = (orderingLines other.ordering).length := by
    have htotal := congrArg List.length heq
    simp only [lines_eq, layoutLines, List.length_append, List.length_cons,
      List.length_nil] at htotal
    omega
  rw [lines_eq, lines_eq] at heq
  obtain ⟨hheading, heq⟩ := List.append_inj heq rfl
  obtain ⟨hoptimized, heq⟩ := List.append_inj heq rfl
  obtain ⟨hordering, heq⟩ := List.append_inj heq hlength
  obtain ⟨hunpacked, hpacked⟩ := List.append_inj heq rfl
  simp only [List.cons.injEq, String.append_right_inj, String.append_left_inj,
    kind_heading_inj] at hheading
  rw [layoutLines_inj] at hoptimized hunpacked hpacked
  rw [orderingLines_inj h.ordering h'.ordering] at hordering
  cases r
  cases other
  exact (Report.mk.injEq ..).mpr
    ⟨hheading.1, hheading.2.1, hunpacked, hpacked, hoptimized, hordering⟩

/-- So does its text. -/
theorem Worded.text_inj {r other : Report} (h : r.Worded) (h' : other.Worded) :
    r.text = other.text ↔ r = other := by
  have hne : ∀ r : Report, r.lines ≠ [] := fun r => List.cons_ne_nil _ _
  rw [← h.lines_inj h']
  exact DataLayout.lines_inj (hne r) (hne other) h.notMem_of_mem_lines h'.notMem_of_mem_lines

end Report

/-! ## Names of a session -/

/-- All names of a registry are words: those of its types, and those that they refer to. -/
def Registry.Worded (r : Registry) : Prop :=
  ∀ e ∈ r.entries, IsWord e.name.toList ∧ ∀ n ∈ e.definition.references, IsWord n.toList

theorem isWord_of_mem_lineTokens {line token : String} (h : token ∈ lineTokens line) :
    IsWord token.toList :=
  (lineTokens_eq_iff.mp rfl).isWord _ (List.mem_map_of_mem h)

namespace Action

/-- The names of an action are words that spell it. -/
theorem Spelled.mem_of_mem_names {action : Action} {words : List String}
    (h : action.Spelled words) : ∀ name ∈ action.names, name ∈ words := by
  cases h with
  | exit => exact List.forall_mem_nil _
  | addAtomic => exact List.forall_mem_singleton.mpr List.mem_cons_self
  | _ => exact fun _ => id

/-- The names that are read in a line are words. -/
theorem isWord_of_parse {line : String} {action : Action} (h : parse line = .ok action) :
    ∀ name ∈ action.names, IsWord name.toList := by
  have haccepted := Command.parse_eq_ok_iff.mp h
  have htokens : ∀ token ∈ lineTokens line, IsWord token.toList :=
    fun _ => isWord_of_mem_lineTokens
  generalize lineTokens line = tokens at haccepted htokens
  obtain ⟨_, hwords⟩ := haccepted
  exact fun name hname =>
    htokens name (List.mem_cons_of_mem _ (hwords.mem_of_mem_names name hname))

theorem names_of_addition {action : Action} {e : Entry} (h : action.addition? = some e) :
    action.names = e.name :: e.definition.references := by
  cases action <;> cases h <;> rfl

end Action

/-- A report on a registry whose names are words is a report on words. -/
theorem Registry.worded_of_report {r : Registry} (h : WellFormed r.entries) (hworded : r.Worded)
    {limit : DigitLimit} {name : String} {report : Report}
    (hreport : r.report limit name = .ok report) : report.Worded := by
  unfold Registry.report at hreport
  obtain ⟨d, hd, hreport⟩ := bind_eq_ok_iff.mp hreport
  have hmem := (h.definitionIn?_eq_some_iff name d).mp (orFail_eq_ok_iff.mp hd)
  obtain ⟨hname, hreferences⟩ := hworded _ hmem
  obtain ⟨unpacked, _, hreport⟩ := bind_eq_ok_iff.mp hreport
  obtain ⟨packed, _, hreport⟩ := bind_eq_ok_iff.mp hreport
  obtain ⟨optimized, _, hreport⟩ := bind_eq_ok_iff.mp hreport
  cases d with
  | struct members =>
    obtain ⟨found, hfound, hreport⟩ := bind_eq_ok_iff.mp hreport
    rw [ordering_of_struct (orFail_eq_ok_iff.mp hd)] at hfound
    cases hreport
    refine ⟨hname, fun names hnames n hn => ?_⟩
    cases hnames
    exact hreferences n ((perm_of_orderingOf hfound).mem_iff.mp hn)
  | atomic size alignment =>
    cases hreport
    exact ⟨hname, fun names hnames => by cases hnames⟩
  | union variants =>
    cases hreport
    exact ⟨hname, fun names hnames => by cases hnames⟩

namespace Program

variable {limit : DigitLimit} {settings : Settings} {r after : Registry} {running : Bool}

/-- A line adds no other names than words. -/
theorem Runs.worded (hworded : r.Worded) {line : String} {answer : Except Failure (Bool × String)}
    (hruns : Runs limit settings r line answer after) : after.Worded := by
  cases hruns with
  | performed hparse hexecutes =>
    cases hexecutes with
    | add he _ =>
      have hnames := Action.isWord_of_parse hparse
      rw [Action.names_of_addition he] at hnames
      exact List.forall_mem_cons.mpr ⟨List.forall_mem_cons.mp hnames, hworded⟩
    | exit => exact hworded
    | describe _ _ => exact hworded
  | _ => exact hworded

variable (limit settings) in
theorem worded_afterLines (h : WellFormed r.entries) (hworded : r.Worded) {p : Program}
    (hp : p.At limit r running) (lines : List String) :
    WellFormed (p.afterLines limit settings lines).registry.entries ∧
      (p.afterLines limit settings lines).registry.Worded := by
  induction lines generalizing r p running with
  | nil => exact hp.registry_eq ▸ ⟨h, hworded⟩
  | cons line rest ih =>
    obtain ⟨answer, after, hruns, hleads⟩ := leads_runLine limit settings h line
    obtain ⟨_, _, hafter⟩ := turn_of_leads (hleads running) hp
    exact ih (hruns.wellFormed h) (hruns.worded hworded) hafter

end Program

open Program

/-- A report in plain text loses nothing of a type that was typed in. After any lines on an empty
registry, all names that are registered or referred to are words, and so are the names in each
report. Two reports on words are the same if their texts are: they have the same name and kind, the
same numbers under every packing, and the same ordering or none. -/
theorem a_report_on_words_is_told_by_its_text :
    (∀ (limit : DigitLimit) (settings : Settings) (lines : List String),
      let r := ((start .empty).afterLines limit settings lines).registry
      (∀ name ∈ r.names, IsWord name.toList) ∧
      (∀ name d, r.lookup? name = some d → ∀ n ∈ d.references, IsWord n.toList) ∧
      ∀ name report, r.report limit name = .ok report → report.Worded) ∧
    ∀ report other : Report, report.Worded → other.Worded → report.text = other.text →
      report = other := by
  refine ⟨fun limit settings lines => ?_, fun report other h h' => (h.text_inj h').mp⟩
  have hempty : WellFormed Registry.empty.entries ∧ Registry.empty.Worded :=
    ⟨trivial, List.forall_mem_nil _⟩
  obtain ⟨hwell, hworded⟩ :=
    worded_afterLines limit settings hempty.1 hempty.2 (at_start .empty) lines
  intro r
  refine ⟨fun name hname => ?_, fun name d hd => ?_, fun name report =>
    Registry.worded_of_report hwell hworded⟩
  · obtain ⟨e, he, rfl⟩ := List.mem_map.mp hname
    exact (hworded e (List.mem_reverse.mp he)).1
  · exact (hworded _ ((hwell.definitionIn?_eq_some_iff name d).mp hd)).2

/-- A struct with a comma in its ordering, and the same one with the comma elsewhere. -/
def commaReport (ordering : List String) : Report :=
  ⟨"pair", .struct, ⟨5, 4, 0⟩, ⟨5, 4, 0⟩, ⟨5, 4, 0⟩, some ordering⟩

/-- It shows whether a comma belongs to the name in front of it or to the one behind. -/
theorem a_comma_stays_with_its_name :
    (∀ name ∈ ((start .empty).afterLines .standard ⟨80, false, .none⟩
      ["atomic int, 4 4", "struct \t pair int, int,"]).registry.names, IsWord name.toList) ∧
    (commaReport ["a,", "b"]).text ≠ (commaReport ["a", ",b"]).text := by
  obtain ⟨hsession, htext⟩ := a_report_on_words_is_told_by_its_text
  have hworded : ∀ names : List String, (∀ n ∈ names, IsWord n.toList) →
      (commaReport names).Worded := by
    intro names h
    have hpair : IsWord "pair".toList := by decide
    refine ⟨hpair, fun others hothers => ?_⟩
    cases hothers
    exact h
  refine ⟨(hsession .standard ⟨80, false, .none⟩ _).1, fun h => ?_⟩
  have hsame := htext _ _ (hworded _ (by decide)) (hworded _ (by decide)) h
  exact absurd hsame (by decide)

end DataLayout
