-- The laws of printed tables. Where the screen has room for a table, each of its rows is a line,
-- and the words of the line are the cells of the row.
import Mathlib.Algebra.GroupWithZero.Nat
import Mathlib.Data.List.Forall2
import DataLayout.Proofs.LongLines
import DataLayout.Proofs.Title

namespace DataLayout

open Console Text

namespace Text

theorem splitAt_append_cons {separator : Char} {text : List Char} (h : separator ∉ text)
    (rest : List Char) :
    splitAt separator (text ++ separator :: rest) = text :: splitAt separator rest := by
  induction text with
  | nil => simp [splitAt]
  | cons c text ih =>
    rw [List.mem_cons, not_or] at h
    rw [List.cons_append, splitAt, if_neg (Ne.symm h.1), ih h.2]

/-- Texts with a line feed behind each of them are found again as lines. -/
theorem lines_flatMap {texts : List (List Char)} (h : ∀ text ∈ texts, '\n' ∉ text) :
    lines .feed (texts.flatMap (· ++ ['\n'])) = texts := by
  have hsplit : splitAt '\n' (texts.flatMap (· ++ ['\n'])) = texts ++ [[]] := by
    induction texts with
    | nil => rfl
    | cons text rest ih =>
      obtain ⟨htext, hrest⟩ := List.forall_mem_cons.mp h
      rw [List.flatMap_cons, List.append_assoc, List.singleton_append, splitAt_append_cons htext,
        ih hrest, List.cons_append]
  simp [lines, LineEnd.feeds, hsplit]

end Text

namespace Console

/-! ## Painted lines -/

theorem unstyled_paint (colors : Bool) {lines : List Line}
    (h : ∀ line ∈ lines, '\x1b' ∉ textOf line) :
    unstyled (paint colors lines).toList = (lines.map textOf).flatMap (· ++ ['\n']) := by
  have hline : ∀ {line : Line}, '\x1b' ∉ textOf line → ∀ rest,
      unstyled (line.flatMap (paintRun colors) ++ rest) = textOf line ++ unstyled rest := by
    intro line hline rest
    induction line with
    | nil => rfl
    | cons r later ih =>
      rw [textOf, List.flatMap_cons, List.mem_append, not_or] at hline
      rw [List.flatMap_cons, List.append_assoc, unstyled_paintRun colors hline.1, ih hline.2,
        ← List.append_assoc]
      rfl
  rw [paint, String.toList_ofList]
  induction lines with
  | nil => rfl
  | cons line rest ih =>
    obtain ⟨hfirst, hrest⟩ := List.forall_mem_cons.mp h
    rw [List.flatMap_cons, paintLine, List.append_assoc, hline hfirst,
      unstyled_append (by decide), ih hrest]
    simp

/-- The cells of the runs of a line together. -/
def runCells (line : Line) : Nat := line.foldr (fun r total => cells r.text + total) 0

theorem clipLine_of_runCells_le {width : Nat} {line : Line} (h : runCells line ≤ width) :
    clipLine width line = line :=
  if_pos h

theorem runCells_of_isPlain {line : Line} (h : ∀ c ∈ textOf line, isPlain c = true) :
    runCells line = (textOf line).length := by
  induction line with
  | nil => rfl
  | cons r rest ih =>
    rw [textOf, List.flatMap_cons] at h
    obtain ⟨hr, hrest⟩ := List.forall_mem_append.mp h
    have hsum : runCells (r :: rest) = cells r.text + runCells rest := rfl
    rw [hsum, cells_of_isPlain hr, ih hrest]
    simp [textOf]

theorem escape_notMem_of_isPlain {text : List Char} (h : ∀ c ∈ text, isPlain c = true) :
    '\x1b' ∉ text :=
  fun hmem => ne_of_isPlain (h _ hmem) (by decide) rfl

section

variable {s : Settings} {line : Line}

/-- Lines that fit are all shown. -/
theorem inked_showLines {lines : List Line} (h : ∀ line ∈ lines, IsShort s.width line) :
    inked (unstyled (showLines s lines).toList) = inked (lines.flatMap textOf) := by
  have hclipped : lines.map (clipLine s.width) = lines := by
    refine (List.map_congr_left fun line hline => ?_).trans (List.map_id lines)
    obtain ⟨hplain, hlength⟩ := h line hline
    exact clipLine_of_runCells_le (runCells_of_isPlain hplain ▸ hlength)
  have hbreak : inked ['\n'] = [] := by decide
  rw [showLines, hclipped,
    unstyled_paint _ fun line hline => escape_notMem_of_isPlain (h line hline).plain,
    List.flatMap_map, inked_flatMap, inked_flatMap]
  refine List.flatMap_congr fun line _ => ?_
  rw [inked_append, hbreak, List.append_nil]

/-- Nothing of an ASCII line is lost but blanks, however long it is. -/
theorem inked_showLines_wrap (h : IsPlainLine line) (hwidth : 0 < s.width) :
    inked (unstyled (showLines s (wrap s.width line)).toList) = inked (textOf line) := by
  obtain ⟨hshort, hinked⟩ := wrap_of_isPlainLine h hwidth
  rw [inked_showLines hshort, hinked]

/-- A line that fits is printed as it is. -/
theorem showLines_wrap (h : IsPrintableLine line) (hend : dropBlankEnd (textOf line) = textOf line)
    (hjoined : line.foldr consRun [] = line) (hfits : cells (textOf line) ≤ s.width) :
    showLines s (wrap s.width line) = paint s.colors [line] := by
  rw [showLines, wrap_of_fits h hfits (.inl hend) hjoined, List.map_singleton,
    clipLine_of_runCells_le (Nat.le_trans (sum_cells_le h) hfits)]

end

/-! ## Rows of a table -/

theorem runCells_append (first second : Line) :
    runCells (first ++ second) = runCells first + runCells second := by
  induction first with
  | nil => exact (Nat.zero_add _).symm
  | cons r rest ih =>
    have hsum : ∀ line, runCells (r :: line) = cells r.text + runCells line := fun _ => rfl
    rw [List.cons_append, hsum, hsum, ih, Nat.add_assoc]

theorem textOf_append (first second : Line) :
    textOf (first ++ second) = textOf first ++ textOf second :=
  List.flatMap_append

/-- A word of printable ASCII characters. -/
def IsPlainWord (word : List Char) : Prop := IsWord word ∧ word.all isPlain = true

instance (word : List Char) : Decidable (IsPlainWord word) := inferInstanceAs (Decidable (_ ∧ _))

/-- A cell of a table: it holds a word, and it is as wide as its column and a space on both
sides. -/
structure IsCell (word : List Char) (width : Nat) (cell : Line) : Prop where
  plain : ∀ c ∈ textOf cell, isPlain c = true
  runCells_eq : runCells cell = width + 2
  words_eq : words (textOf cell) = [word]

theorem plain_spaces (n : Nat) : ∀ c ∈ List.replicate n ' ', isPlain c = true := by
  intro c hc
  rw [List.eq_of_mem_replicate hc]
  decide

theorem blank_spaces (n : Nat) : ∀ c ∈ List.replicate n ' ', isBlank c = true := by
  intro c hc
  rw [List.eq_of_mem_replicate hc]
  decide

/-- A word among spaces is a cell. -/
theorem isCell {word : List Char} (hword : IsPlainWord word) {width : Nat} {cell : Line}
    (before behind : Nat)
    (htext : textOf cell = List.replicate before ' ' ++ word ++ List.replicate behind ' ')
    (hwidth : before + word.length + behind = width + 2) : IsCell word width cell := by
  have hplain : ∀ c ∈ textOf cell, isPlain c = true := by
    rw [htext]
    exact List.forall_mem_append.mpr ⟨List.forall_mem_append.mpr
      ⟨plain_spaces before, List.all_eq_true.mp hword.2⟩, plain_spaces behind⟩
  refine ⟨hplain, ?_, ?_⟩
  · rw [runCells_of_isPlain hplain, htext]
    simpa [Nat.add_assoc] using hwidth
  · rw [htext, List.append_assoc, words_append_of_blank (blank_spaces before), words,
      wordsFrom_append_blanks (blank_spaces behind)]
    exact words_eq_iff.mpr (.alone hword.1)

theorem le_foldl_max_of_mem {widths : List Nat} {width : Nat} (h : width ∈ widths) (least : Nat) :
    width ≤ widths.foldl max least := by
  induction widths generalizing least with
  | nil => cases h
  | cons first rest ih =>
    rcases List.mem_cons.mp h with rfl | h
    · exact Nat.le_trans (Nat.le_max_right least width) (le_foldl_max rest _)
    · exact ih h _

theorem isCell_fillCell {c : Column} {r : Run} (hr : r ∈ c.cells) (hword : IsPlainWord r.text) :
    IsCell r.text (Table.columnWidth c) (Table.fillCell c r) := by
  have hcells := cells_of_isPlain (List.all_eq_true.mp hword.2)
  have hmem : cells r.text ∈ c.cells.map fun r => cells r.text := List.mem_map_of_mem hr
  have hle : r.text.length ≤ Table.columnWidth c := by
    rw [← hcells]
    exact le_foldl_max_of_mem hmem _
  unfold Table.fillCell
  split
  · refine isCell hword (1 + (Table.columnWidth c - r.text.length)) 1 ?_ (by omega)
    simp [textOf, Table.spaces, hcells, List.replicate_add]
  · refine isCell hword 1 (Table.columnWidth c - r.text.length + 1) ?_ (by omega)
    simp [textOf, Table.spaces, hcells, List.replicate_add]

theorem isCell_headingCell {c : Column} (hword : IsPlainWord c.heading.toList) :
    IsCell c.heading.toList (Table.columnWidth c) (Table.headingCell c) := by
  have hcells := cells_of_isPlain (List.all_eq_true.mp hword.2)
  have hle : c.heading.toList.length ≤ Table.columnWidth c := by
    rw [← hcells]
    exact le_foldl_max _ _
  unfold Table.headingCell
  split_ifs
  · refine isCell hword (1 + (Table.columnWidth c - c.heading.toList.length)) 1 ?_ (by omega)
    simp [textOf, hcells, List.replicate_add]
  · refine isCell hword 1 (Table.columnWidth c - c.heading.toList.length + 1) ?_ (by omega)
    simp [textOf, hcells, List.replicate_add]

/-- A line of a table: it is as wide as the table, and these are its words. -/
structure IsRow (found : List (List Char)) (width : Nat) (line : Line) : Prop where
  runCells_eq : runCells line = width
  unbroken : '\n' ∉ textOf line ∧ '\x1b' ∉ textOf line
  words_eq : words (textOf line) = found

theorem textOf_space : textOf [Table.spaces 1] = [' '] := rfl

theorem runCells_space : runCells [Table.spaces 1] = 1 := by
  have hplain : ∀ c ∈ textOf [Table.spaces 1], isPlain c = true := plain_spaces 1
  exact runCells_of_isPlain hplain

theorem runCells_intersperse (row : List Line) :
    runCells (row.intersperse [Table.spaces 1]).flatten =
      (row.map runCells).sum + (row.length - 1) := by
  induction row with
  | nil => rfl
  | cons cell rest ih =>
    cases rest with
    | nil => simp
    | cons next more =>
      simp only [List.intersperse_cons_cons, List.flatten_cons, runCells_append, runCells_space, ih,
        List.map_cons, List.sum_cons, List.length_cons]
      omega

theorem words_intersperse (row : List Line) :
    words (textOf (row.intersperse [Table.spaces 1]).flatten) =
      row.flatMap fun cell => words (textOf cell) := by
  induction row with
  | nil => rfl
  | cons cell rest ih =>
    cases rest with
    | nil => simp
    | cons next more =>
      rw [List.flatMap_cons, List.intersperse_cons_cons, List.flatten_cons, List.flatten_cons,
        textOf_append, textOf_append, textOf_space, List.singleton_append,
        words_append_cons (by decide), ih]

theorem plain_intersperse {row : List Line}
    (h : ∀ cell ∈ row, ∀ c ∈ textOf cell, isPlain c = true) :
    ∀ c ∈ textOf (row.intersperse [Table.spaces 1]).flatten, isPlain c = true := by
  induction row with
  | nil => exact List.forall_mem_nil _
  | cons cell rest ih =>
    obtain ⟨hcell, hrest⟩ := List.forall_mem_cons.mp h
    cases rest with
    | nil => simpa using hcell
    | cons next more =>
      simp only [List.intersperse_cons_cons, List.flatten_cons, textOf_append, textOf_space]
      exact List.forall_mem_append.mpr ⟨hcell, List.forall_mem_append.mpr
        ⟨plain_spaces 1, ih hrest⟩⟩

theorem isRow_of_isPlain {line : Line} (h : ∀ c ∈ textOf line, isPlain c = true)
    {found : List (List Char)} {width : Nat} (hwidth : runCells line = width)
    (hwords : words (textOf line) = found) : IsRow found width line :=
  ⟨hwidth, ⟨fun hmem => ne_of_isPlain (h _ hmem) (by decide) rfl, escape_notMem_of_isPlain h⟩,
    hwords⟩

/-- A row of cells, one for each column. -/
theorem isRow_rowLine {t : Table} {cellOf : Column → Line}
    {wordOf : Column → List Char}
    (h : ∀ c ∈ t.columns, IsCell (wordOf c) (Table.columnWidth c) (cellOf c)) :
    IsRow (t.columns.map wordOf) t.width (Table.rowLine (t.columns.map cellOf)) := by
  have hline : ∀ row : List Line, Table.rowLine row =
      [Table.spaces 1] ++ (row.intersperse [Table.spaces 1]).flatten ++ [Table.spaces 1] :=
    fun _ => rfl
  rw [hline]
  refine isRow_of_isPlain ?_ ?_ ?_
  · rw [textOf_append, textOf_append]
    refine List.forall_mem_append.mpr ⟨List.forall_mem_append.mpr ⟨plain_spaces 1, ?_⟩,
      plain_spaces 1⟩
    exact plain_intersperse (List.forall_mem_map.mpr fun c hc => (h c hc).plain)
  · have hsum : (t.columns.map cellOf).map runCells =
        t.columns.map fun c => Table.columnWidth c + 2 := by
      rw [List.map_map]
      exact List.map_congr_left fun c hc => (h c hc).runCells_eq
    rw [runCells_append, runCells_append, runCells_space, runCells_intersperse, hsum,
      List.length_map,
      Table.width, ← List.sum_eq_foldl]
    omega
  · have hwords : (t.columns.map cellOf).flatMap (fun cell => words (textOf cell)) =
        t.columns.map wordOf := by
      rw [List.flatMap_map, List.flatMap_congr fun c hc => (h c hc).words_eq]
      exact List.flatMap_pure_eq_map _ _
    rw [textOf_append, textOf_append, textOf_space, words_append_cons (by decide),
      List.singleton_append,
      words_cons_of_blank (by decide), words_intersperse, hwords]
    simp [words, wordsFrom]

theorem cells_replicate_rule (n : Nat) : cells (List.replicate n '─') = n := by
  have hafter : ∀ last, cellsAfter last (List.replicate n '─') = n := by
    induction n with
    | zero => exact fun _ => rfl
    | succ n ih =>
      intro last
      have hcell : charCells '─' = 1 := by decide +kernel
      rw [List.replicate_succ, cellsAfter_cons _ _ (by decide) (by decide), hcell, ih, Nat.add_comm]
  exact hafter none

/-- What stands below the title of a table. -/
def tableBody (t : Table) : List Line :=
  [[Table.spaces t.width], Table.rowLine (t.columns.map Table.headingCell), t.rule] ++
    (List.range t.rowCount).map (fun row => Table.rowLine (t.rowCells row)) ++
    [[Table.spaces t.width]]

theorem tableLines_eq (t : Table) : t.lines = t.titleLines ++ tableBody t := by
  simp [Table.lines, tableBody]

/-- The cell of a column in the row of the given number. -/
def cellAt (row : Nat) (c : Column) : Run := c.cells.getD row (Table.spaces 0)

/-- All headings and cells of a table are words of ASCII characters, and each row has a cell in
every column. -/
structure IsWorded (t : Table) : Prop where
  wide : 2 < t.width
  headings : ∀ c ∈ t.columns, IsPlainWord c.heading.toList
  cells : ∀ c ∈ t.columns, ∀ r ∈ c.cells, IsPlainWord r.text
  filled : ∀ row < t.rowCount, ∀ c ∈ t.columns, row < c.cells.length

/-- The words of a table, line by line. -/
def wordsOfTable (t : Table) : List (List (List Char)) :=
  [[], t.columns.map (·.heading.toList), [List.replicate (t.width - 2) '─']] ++
    (List.range t.rowCount).map (fun row => t.columns.map fun c => (cellAt row c).text) ++ [[]]

theorem isRow_spaces (n : Nat) : IsRow [] n [Table.spaces n] := by
  have htext : textOf [Table.spaces n] = List.replicate n ' ' := by simp [textOf, Table.spaces]
  have hplain : ∀ c ∈ textOf [Table.spaces n], isPlain c = true := htext ▸ plain_spaces n
  refine isRow_of_isPlain hplain ?_ ?_
  · rw [runCells_of_isPlain hplain, htext, List.length_replicate]
  · rw [htext]
    exact wordsFrom_blanks (blank_spaces n) []

section

variable {t : Table} (h : IsWorded t)

include h

theorem isRow_rule : IsRow [List.replicate (t.width - 2) '─'] t.width t.rule := by
  have hwide := h.wide
  have htext : textOf t.rule = ' ' :: (List.replicate (t.width - 2) '─' ++ [' ']) := by
    simp [textOf, Table.rule, Table.spaces]
  have hword : IsWord (List.replicate (t.width - 2) '─') := by
    refine ⟨by simp; omega, fun c hc => ?_⟩
    rw [List.eq_of_mem_replicate hc]
    decide
  have hchars : ∀ c ∈ textOf t.rule, c = ' ' ∨ c = '─' := by
    rw [htext]
    simp only [List.mem_cons, List.mem_append, List.mem_replicate, List.not_mem_nil]
    tauto
  refine ⟨?_, ⟨fun hmem => absurd (hchars _ hmem) (by decide),
    fun hmem => absurd (hchars _ hmem) (by decide)⟩, ?_⟩
  · simp only [runCells, Table.rule, Table.spaces, List.foldr_cons, List.foldr_nil,
      cells_replicate_rule, cells_of_isPlain (plain_spaces 1), List.length_replicate]
    omega
  · rw [htext, words_cons_of_blank (by decide), words_append_cons (by decide),
      words_eq_iff.mpr (.alone hword)]
    rfl

/-- Every line below the title is a row of the table. -/
theorem isRow_tableBody :
    List.Forall₂ (fun found line => IsRow found t.width line) (wordsOfTable t) (tableBody t) := by
  have hheadings : IsRow (t.columns.map (·.heading.toList)) t.width
      (Table.rowLine (t.columns.map Table.headingCell)) :=
    isRow_rowLine fun c hc => isCell_headingCell (h.headings c hc)
  have hrow : ∀ row < t.rowCount, IsRow (t.columns.map fun c => (cellAt row c).text) t.width
      (Table.rowLine (t.rowCells row)) := by
    intro row hlt
    have hat : ∀ c ∈ t.columns, c.cells[row]? = some (cellAt row c) := by
      intro c hc
      have hfilled := h.filled row hlt c hc
      simp [cellAt, hfilled]
    have hcells : t.rowCells row = t.columns.map fun c => Table.fillCell c (cellAt row c) := by
      unfold Table.rowCells
      rw [← List.filterMap_eq_map]
      refine List.filterMap_congr fun c hc => ?_
      rw [hat c hc]
      rfl
    rw [hcells]
    refine isRow_rowLine fun c hc => ?_
    have hmem := List.mem_of_getElem? (hat c hc)
    exact isCell_fillCell hmem (h.cells c hc _ hmem)
  unfold wordsOfTable tableBody
  refine List.rel_append (List.rel_append ?_ ?_) ?_
  · exact .cons (isRow_spaces _) (.cons hheadings (.cons (isRow_rule h) .nil))
  · rw [List.forall₂_map_left_iff, List.forall₂_map_right_iff, List.forall₂_same]
    exact fun row hmem => hrow row (List.mem_range.mp hmem)
  · exact .cons (isRow_spaces _) .nil

end

/-- The words of the lines of a printed text. -/
def printedRows (printed : String) : List (List String) :=
  (lines .feed (unstyled printed.toList)).map fun line => (words line).map String.ofList

/-- Rows that are as wide as the screen at the most are printed with all their words. -/
theorem printedRows_of_isRow {s : Settings} {width : Nat} {found : List (List (List Char))}
    {lines : List Line} (h : List.Forall₂ (fun found line => IsRow found width line) found lines)
    (hroom : width ≤ s.width) :
    printedRows (showLines s lines) = found.map (·.map String.ofList) := by
  have hrows : lines.map (fun line => words (textOf line)) = found ∧
      ∀ line ∈ lines, ∃ found, IsRow found width line := by
    induction h with
    | nil => exact ⟨rfl, List.forall_mem_nil _⟩
    | cons hrow _ ih =>
      refine ⟨?_, List.forall_mem_cons.mpr ⟨⟨_, hrow⟩, ih.2⟩⟩
      rw [List.map_cons, hrow.words_eq, ih.1]
  obtain ⟨hfound, hline⟩ := hrows
  have hclipped : lines.map (clipLine s.width) = lines := by
    refine (List.map_congr_left fun line hmem => ?_).trans (List.map_id lines)
    obtain ⟨_, hrow⟩ := hline line hmem
    exact clipLine_of_runCells_le (hrow.runCells_eq ▸ hroom)
  have hescape : ∀ line ∈ lines, '\x1b' ∉ textOf line := fun line hmem =>
    (hline line hmem).elim fun _ hrow => hrow.unbroken.2
  have hbreak : ∀ text ∈ lines.map textOf, '\n' ∉ text := List.forall_mem_map.mpr fun line hmem =>
    (hline line hmem).elim fun _ hrow => hrow.unbroken.1
  rw [printedRows, showLines, hclipped, unstyled_paint _ hescape, lines_flatMap hbreak, ← hfound]
  simp only [List.map_map, Function.comp_def]

end Console

end DataLayout
