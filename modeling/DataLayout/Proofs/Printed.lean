-- The laws of what a line prints. A fault is printed as its label and its message, and a report as
-- its title, a table of its numbers and its ordering.
import DataLayout.Proofs.Grammar
import DataLayout.Proofs.Rows
import DataLayout.Registry

namespace DataLayout

open Console Text

/-! ## Messages -/

/-- What the message of a fault of a type reads. -/
inductive TypeFault.Reads : TypeFault → String → Prop
  | redefinition :
      Reads ⟨.redefinition, none⟩ "[TYPE_REDEFINITION] An existing type cannot be redefined"
  | zeroSize : Reads ⟨.zeroSize, none⟩ "[NO_ZERO_SIZED_TYPE] Types of size 0 are not allowed"
  | zeroAlignment : Reads ⟨.zeroAlignment, none⟩ "[NO_ZERO_ALIGN] Aligning to 0 is not allowed"
  | emptyCompound :
      Reads ⟨.emptyCompound, none⟩ "[EMPTY_COMPOUND_TYPE] Empty compound types are not allowed"
  | unknownName (name : String) :
      Reads ⟨.unknownName, some name⟩
        ("[TYPE_DOES_NOT_EXIST] The symbol does not exist: '" ++ name ++ "'")

/-- What the message of a fault of a line reads. -/
inductive CommandFault.Reads : CommandFault → String → Prop
  | notEnoughArguments :
      Reads ⟨.notEnoughArguments, none⟩ "[NOT_ENOUGH_ARGS] Not enough arguments"
  | tooManyArguments : Reads ⟨.tooManyArguments, none⟩ "[TOO_MANY_ARGS] Too many arguments"
  | invalidAction (verb : String) :
      Reads ⟨.invalidAction, some verb⟩ ("[INVALID_ACTION] Not a valid action: '" ++ verb ++ "'")
  | invalidArgument (token : String) :
      Reads ⟨.invalidArgument, some token⟩
        ("[INVALID_ARGUMENT] Not a valid argument: '" ++ token ++ "'")

theorem TypeFault.reads_unknown (name : String) : (unknown name).Reads (unknown name).message := by
  have hmessage : (unknown name).message =
      "[TYPE_DOES_NOT_EXIST] The symbol does not exist: '" ++ name ++ "'" := by
    rw [← String.toList_inj]
    simp [unknown, message, Cause.wording?, faultText]
  rw [hmessage]
  exact .unknownName name

theorem Registry.reads_of_check {r : Registry} {name : String} {d : Definition} {fault : TypeFault}
    (h : r.check name d = .error fault) : fault.Reads fault.message := by
  have hmembers : ∀ names, r.checkMembers names = .error fault → fault.Reads fault.message := by
    intro names h
    unfold checkMembers at h
    split at h
    · cases h
      exact .emptyCompound
    · split at h
      · cases h
        exact TypeFault.reads_unknown _
      · cases h
  unfold check at h
  split at h
  · cases h
    exact .redefinition
  cases d with
  | atomic size alignment =>
    simp only at h
    split_ifs at h
    · cases h
      exact .zeroSize
    · cases h
      exact .zeroAlignment
  | struct names => exact hmembers names h
  | union names => exact hmembers names h

/-- The fault of a line that is no command reads one of the messages. -/
theorem Action.reads_of_parse {line : String} {fault : CommandFault} {message : String}
    (h : Action.parse line = .error fault) (hmessage : fault.message? = some message) :
    fault.Reads message := by
  have hrefused := Command.parse_eq_error_iff.mp h
  generalize lineTokens line = tokens at hrefused
  cases hrefused with
  | noVerb =>
    cases hmessage
    exact .notEnoughArguments
  | few _ _ =>
    cases hmessage
    exact .notEnoughArguments
  | many _ _ =>
    cases hmessage
    exact .tooManyArguments
  | otherVerb _ =>
    obtain rfl := Option.some.inj hmessage
    exact .invalidAction _
  | firstNumber _ _ =>
    obtain rfl := Option.some.inj hmessage
    exact .invalidArgument _
  | secondNumber _ _ _ =>
    obtain rfl := Option.some.inj hmessage
    exact .invalidArgument _

theorem endsInked_quoted (text : String) : EndsInked (text ++ "'").toList := by
  rw [String.toList_append]
  exact endsInked_append _ (by decide)

/-- No message ends in a blank. -/
theorem TypeFault.Reads.endsInked {fault : TypeFault} {message : String} (h : fault.Reads message) :
    EndsInked message.toList := by
  cases h with
  | unknownName name => exact endsInked_quoted _
  | _ => decide

theorem CommandFault.Reads.endsInked {fault : CommandFault} {message : String}
    (h : fault.Reads message) : EndsInked message.toList := by
  cases h with
  | invalidAction verb => exact endsInked_quoted _
  | invalidArgument token => exact endsInked_quoted _
  | _ => decide

namespace Console

/-! ## Reports -/

/-- The numbers of a layout behind the word for its packing. -/
def numberRow (heading : String) (l : ModeLayout) : List String :=
  [heading, toString l.size, toString l.alignment, toString l.loss]

section

variable (pictures : Markup.Pictures) (r : Report)

theorem isPlain_numeral (n : Int) : ∀ c ∈ numeral n, isPlain c = true := by
  unfold numeral
  split_ifs
  · exact List.forall_mem_cons.mpr ⟨by decide, isPlain_of_mem_digits⟩
  · exact isPlain_of_mem_digits

theorem isPlainWord_numeral (n : Int) : IsPlainWord (numeral n) :=
  ⟨isWord_numeral n, List.all_eq_true.mpr (isPlain_numeral n)⟩

theorem isWorded_reportTable : IsWorded (reportTable pictures r) where
  wide := Nat.lt_of_lt_of_le (by decide) (le_width_reportTable pictures r)
  headings := by
    simp only [reportTable, List.forall_mem_cons]
    exact ⟨by decide, by decide, by decide, by decide, List.forall_mem_nil _⟩
  cells := by
    simp only [reportTable, List.forall_mem_cons, List.forall_mem_map]
    refine ⟨?_, fun _ _ => isPlainWord_numeral _, fun _ _ => isPlainWord_numeral _,
      fun _ _ => isPlainWord_numeral _, List.forall_mem_nil _⟩
    intro p _
    cases p <;> decide
  filled := by
    simp only [reportTable, List.forall_mem_cons, List.length_map]
    exact fun row hrow => ⟨hrow, hrow, hrow, hrow, List.forall_mem_nil _⟩

theorem wordsOfTable_reportTable :
    (wordsOfTable (reportTable pictures r)).map (·.map String.ofList) =
      [[], ["Packing", "Size", "Alignment", "Loss"],
        [String.ofList (List.replicate ((reportTable pictures r).width - 2) '─')],
        numberRow "Optimized" r.optimized, numberRow "Unpacked" r.unpacked,
        numberRow "Packed" r.packed, []] := by
  have hrow : ∀ row p, Packing.reported[row]? = some p →
      ((reportTable pictures r).columns.map fun c => (cellAt row c).text).map String.ofList =
        numberRow p.heading (r.layout p) := by
    intro row p hp
    simp [reportTable, cellAt, hp, numberRow, plainRun, lossRun, ofList_numeral]
  have hcount : List.range (reportTable pictures r).rowCount = [0, 1, 2] := rfl
  have hheadings : ((reportTable pictures r).columns.map (·.heading.toList)).map String.ofList =
      ["Packing", "Size", "Alignment", "Loss"] := by simp [reportTable]
  unfold wordsOfTable
  rw [hcount]
  simp only [List.map_append, List.map_cons, List.map_nil, hheadings, hrow 0 .optimized rfl,
    hrow 1 .unpacked rfl, hrow 2 .packed rfl]
  rfl

end

/-- One line is printed, `styled` with its control sequences. An ASCII line that does not fit is
broken, and then nothing of it is lost but blanks. -/
structure PrintsLine (s : Settings) (text styled printed : String) : Prop where
  of_fits : (∀ c ∈ text.toList, isPrintable c = true) → cells text.toList ≤ s.width →
    printed = styled ++ "\n"
  of_plain : (∀ c ∈ text.toList, isPlain c = true) → 0 < s.width →
    inked (unstyled printed.toList) = inked text.toList

theorem PrintsLine.eq_of_plain {s : Settings} {text styled printed : String}
    (h : PrintsLine s text styled printed) (hplain : ∀ c ∈ text.toList, isPlain c = true)
    (hfits : text.toList.length ≤ s.width) : printed = styled ++ "\n" :=
  h.of_fits (fun c hc => isPrintable_of_isPlain (hplain c hc)) (cells_of_isPlain hplain ▸ hfits)

/-- The title is printed. It shows the name and the kind. -/
structure PrintsTitle (s : Settings) (r : Report) (printed : String) : Prop where
  of_fits : (∀ c ∈ r.name.toList, isPrintable c = true) →
    cells (shownTitle r) ≤ (reportTable s.pictures r).width →
    ∃ gap, unstyled printed.toList = shownTitle r ++ List.replicate gap ' ' ++ ['\n']
  of_plain : (∀ c ∈ r.name.toList, isPlain c = true) →
    inked (unstyled printed.toList) = inked (shownTitle r)

/-- The best ordering is printed, if the report has one. -/
inductive PrintsOrdering (s : Settings) : Option (List String) → String → Prop
  | none : PrintsOrdering s none ""
  | some {names : List String} {printed : String}
      (hline : let text := "Optimized ordering: " ++ ", ".intercalate names
        EndsInked text.toList →
        PrintsLine s text (if s.colors then "\x1b[3m" ++ text ++ "\x1b[0m" else text) printed) :
      PrintsOrdering s (some names) printed

/-- A report is printed: the title, the table of its numbers, and the ordering. -/
inductive PrintsReport (s : Settings) (r : Report) : String → Prop
  | mk {title table ordering : String}
      (htitle : r.name ≠ "" → ¬ Markup.HoldsCode s.pictures r.name.toList → PrintsTitle s r title)
      (htable : ∃ rule : String, printedRows table =
        [[], ["Packing", "Size", "Alignment", "Loss"], [rule], numberRow "Optimized" r.optimized,
          numberRow "Unpacked" r.unpacked, numberRow "Packed" r.packed, []])
      (hordering : PrintsOrdering s r.ordering ordering) :
      PrintsReport s r (title ++ table ++ ordering)

theorem showLines_append (s : Settings) (first second : List Line) :
    showLines s (first ++ second) = showLines s first ++ showLines s second := by
  simp [showLines, paint]

theorem forall_runs {holds : Char → Bool} {line : Line} (hne : ∀ run ∈ line, run.text ≠ [])
    (h : ∀ c ∈ textOf line, holds c = true) :
    ∀ run ∈ line, run.text ≠ [] ∧ ∀ c ∈ run.text, holds c = true :=
  fun run hrun => ⟨hne run hrun, fun c hc => h c (List.mem_flatMap.mpr ⟨run, hrun, hc⟩)⟩

/-- A line without a blank at its end is printed. -/
theorem printsLine_wrap {s : Settings} {line : Line} {text styled : String}
    (htext : textOf line = text.toList) (hne : ∀ run ∈ line, run.text ≠ [])
    (hend : EndsInked text.toList) (hjoined : line.foldr consRun [] = line)
    (hpainted : paint s.colors [line] = styled ++ "\n") :
    PrintsLine s text styled (showLines s (wrap s.width line)) where
  of_fits hprintable hfits := by
    have hkept : dropBlankEnd (textOf line) = textOf line := by
      rw [htext, dropBlankEnd_of_endsInked hend]
    rw [showLines_wrap (forall_runs hne (htext ▸ hprintable)) hkept hjoined (htext ▸ hfits),
      hpainted]
  of_plain hplain hwidth := by
    rw [inked_showLines_wrap (forall_runs hne (htext ▸ hplain)) hwidth, htext]

theorem printsOrdering (s : Settings) (names : List String) :
    PrintsOrdering s (some names) (showLines s (wrap s.width (orderingLine names))) := by
  refine .some ?_
  intro text hend
  have hline : orderingLine names = [⟨text.toList, .italic⟩] := by
    simp [text, orderingLine]
  have hne : text.toList ≠ [] := by simp [text]
  rw [hline]
  refine printsLine_wrap (by simp [textOf]) (by simpa using hne) hend rfl ?_
  rw [← String.toList_inj]
  cases s.colors <;> simp [paint, paintLine, paintRun, hne, Style.italic, Style.codes]

theorem textOf_padLine (width : Nat) (line : Line) :
    textOf (padLine width line) =
      textOf line ++ List.replicate (width - cells (textOf line)) ' ' := by
  unfold padLine
  simp only
  split
  · rename_i text hlast
    have hsingle : ∀ r : Run, textOf [r] = r.text := fun r => by simp [textOf]
    have hsplit : textOf line = textOf line.dropLast ++ text := by
      conv_lhs => rw [← List.dropLast_append_getLast? _ hlast, textOf_append, hsingle]
    rw [textOf_append, hsingle, ← List.append_assoc, ← hsplit]
  · simp [textOf]

theorem IsShort.padded {width screen : Nat} {line : Line} (h : IsShort width line) (style : Style)
    (hroom : width ≤ screen) : IsShort screen (onto style (padLine width line)) := by
  obtain ⟨hplain, hlength⟩ := h
  have htext := (textOf_onto style (padLine width line)).trans (textOf_padLine width line)
  rw [cells_of_isPlain hplain] at htext
  refine ⟨?_, ?_⟩ <;> rw [htext]
  · exact List.forall_mem_append.mpr ⟨hplain, plain_spaces _⟩
  · rw [List.length_append, List.length_replicate]
    omega

theorem inked_padded (style : Style) (width : Nat) (line : Line) :
    inked (textOf (onto style (padLine width line))) = inked (textOf line) := by
  rw [textOf_onto, textOf_padLine, inked_append, inked_blanks (blank_spaces _), List.append_nil]

theorem printsTitle {s : Settings} {r : Report} (hroom : (reportTable s.pictures r).width ≤ s.width)
    (hname : r.name ≠ "") (hcode : ¬ Markup.HoldsCode s.pictures r.name.toList) :
    PrintsTitle s r (showLines s (reportTable s.pictures r).titleLines) := by
  refine ⟨fun hprintable hfits => ?_, fun hplain => ?_⟩
  · obtain ⟨line, gap, htitle, htext, hline⟩ :=
      exists_titleLine hname hprintable hcode (Nat.le_min.mpr ⟨hfits, Nat.le_trans hfits hroom⟩)
    have hescape : '\x1b' ∉ textOf line :=
      fun hmem => ne_of_isPrintable (hline _ hmem) (by decide +kernel) rfl
    refine ⟨gap, ?_⟩
    rw [showLines, htitle, unstyled_paint _ (List.forall_mem_singleton.mpr hescape), ← htext]
    simp
  · have hprintable : ∀ c ∈ r.name.toList, isPrintable c = true :=
      fun c hc => isPrintable_of_isPlain (hplain c hc)
    have htitle := isTitle hname hprintable hcode
    have hruns : IsPlainLine (reportTable s.pictures r).title :=
      forall_runs (fun run hrun => (htitle.printable run hrun).1)
        (htitle.textOf_eq ▸ isPlain_shownTitle hplain)
    have hwidth : 0 < (reportTable s.pictures r).width :=
      Nat.lt_of_lt_of_le (by decide) (le_width_reportTable s.pictures r)
    obtain ⟨hshort, hinked⟩ := wrap_of_isPlainLine hruns hwidth
    rw [Table.titleLines, inked_showLines (List.forall_mem_map.mpr fun line hline =>
        (hshort line hline).padded .italic hroom), List.flatMap_map]
    simp only [inked_flatMap, inked_padded] at hinked ⊢
    rw [hinked, htitle.textOf_eq]

/-- Where the screen has room for its table, a report is printed with all it says. -/
theorem printsReport {s : Settings} {r : Report}
    (hroom : (reportTable s.pictures r).width ≤ s.width) : PrintsReport s r (showReport s r) := by
  have htable := printedRows_of_isRow (isRow_tableBody (isWorded_reportTable s.pictures r)) hroom
  rw [wordsOfTable_reportTable] at htable
  have hparts : ∀ ordering, showLines s ((reportTable s.pictures r).lines ++ ordering) =
      showLines s (reportTable s.pictures r).titleLines ++
        showLines s (tableBody (reportTable s.pictures r)) ++ showLines s ordering := by
    intro ordering
    rw [tableLines_eq, showLines_append, showLines_append]
  rw [showReport, reportLines, hparts]
  refine .mk (printsTitle hroom) ⟨_, htable⟩ ?_
  cases r.ordering with
  | none => exact .none
  | some names => exact printsOrdering s names

/-! ## Faults -/

/-- A fault is printed: its label in bold red, and its message. -/
def PrintsFault (s : Settings) (label message printed : String) : Prop :=
  PrintsLine s (label ++ " " ++ message)
    ((if s.colors then "\x1b[1;31m" ++ label ++ "\x1b[0m" else label) ++ " " ++ message) printed

theorem printsFault {s : Settings} {label message : String} (hlabel : label.toList ≠ [])
    (hend : EndsInked message.toList) :
    PrintsFault s label message (showLines s (wrap s.width (faultLine label message))) := by
  have hwhole : EndsInked (label ++ " " ++ message).toList := by
    rw [String.toList_append]
    exact endsInked_append _ hend
  refine printsLine_wrap (by simp [textOf, faultLine, plainRun])
    (by simp [faultLine, plainRun, hlabel]) hwhole rfl ?_
  rw [← String.toList_inj]
  cases s.colors <;>
    simp [paint, paintLine, paintRun, faultLine, plainRun, hlabel, Style.boldColored,
      Style.plain, Style.codes, Color.code]

theorem printsFault_command (s : Settings) {fault : CommandFault} {message : String}
    (h : fault.Reads message) : PrintsFault s "[ERROR]" message (showCommandFault s message) :=
  printsFault (by decide) h.endsInked

theorem printsFault_type (s : Settings) {fault : TypeFault} {message : String}
    (h : fault.Reads message) : PrintsFault s "[TYPE ERROR]" message (showTypeFault s message) :=
  printsFault (by decide) h.endsInked

end Console

end DataLayout
