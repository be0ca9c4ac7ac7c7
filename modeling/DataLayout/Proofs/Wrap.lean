-- The laws of lines that fit. A line of printable characters whose cells are not more than the
-- width stays one line. Printable ASCII characters take one cell each.
import DataLayout.Console.Display
import DataLayout.Text.Unprintable

namespace DataLayout

namespace Text

/-! ## Printable ASCII characters -/

/-- The characters from the space to the tilde. -/
def isPlain (c : Char) : Bool := 0x20 ≤ c.toNat && c.toNat ≤ 0x7e

theorem ne_of_isPlain {c d : Char} (hc : isPlain c = true) (hd : isPlain d = false) : c ≠ d := by
  rintro rfl
  rw [hc] at hd
  cases hd

theorem isPlain_of_mem_digits {n : Nat} : ∀ c ∈ digits n, isPlain c = true := by
  intro c hc
  have hdigit := Nat.isDigit_of_mem_toDigits (by decide) (by decide) hc
  have hzero : '0'.val.toNat = 0x30 := rfl
  have hnine : '9'.val.toNat = 0x39 := rfl
  simp only [Char.isDigit, Bool.and_eq_true, decide_eq_true_eq, UInt32.le_iff_toNat_le] at hdigit
  simp only [isPlain, Bool.and_eq_true, decide_eq_true_eq, Char.toNat]
  omega

/-- No run of the tables reaches between the space and the tilde. -/
theorem runs_besides_plain : (zeroWidthRuns ++ doubleWidthRuns ++ unprintableRuns).all
    (fun run => run.2 < 0x20 || 0x7e < run.1) = true := by
  decide +kernel

theorem inRuns_of_isPlain {runs : List (Nat × Nat)}
    (hruns : runs ⊆ zeroWidthRuns ++ doubleWidthRuns ++ unprintableRuns) {c : Char}
    (hc : isPlain c = true) : inRuns runs c.toNat = false := by
  simp only [isPlain, Bool.and_eq_true, decide_eq_true_eq] at hc
  refine List.any_eq_false.mpr fun run hrun => ?_
  have := List.all_eq_true.mp runs_besides_plain run (hruns hrun)
  simp only [Bool.or_eq_true, decide_eq_true_eq] at this
  simp only [Bool.and_eq_true, decide_eq_true_eq]
  omega

theorem charCells_of_isPlain {c : Char} (hc : isPlain c = true) : charCells c = 1 := by
  have hzero : inRuns zeroWidthRuns c.toNat = false :=
    inRuns_of_isPlain (fun _ h => by simp [h]) hc
  have hdouble : inRuns doubleWidthRuns c.toNat = false :=
    inRuns_of_isPlain (fun _ h => by simp [h]) hc
  simp [charCells, hzero, hdouble]

theorem isPrintable_of_isPlain {c : Char} (hc : isPlain c = true) : isPrintable c = true := by
  rw [isPrintable, inRuns_of_isPlain (fun _ h => by simp [h]) hc, Bool.not_false]

theorem cellsAfter_of_isPlain {text : List Char} (h : ∀ c ∈ text, isPlain c = true)
    (last : Option Char) : cellsAfter last text = text.length := by
  induction text generalizing last with
  | nil => rfl
  | cons c rest ih =>
    have hc := h c List.mem_cons_self
    rw [cellsAfter_cons last rest (ne_of_isPlain hc (by decide)) (ne_of_isPlain hc (by decide)),
      charCells_of_isPlain hc, ih fun d hd => h d (List.mem_cons_of_mem _ hd), List.length_cons,
      Nat.add_comm]

/-- Each character takes a cell. -/
theorem cells_of_isPlain {text : List Char} (h : ∀ c ∈ text, isPlain c = true) :
    cells text = text.length := cellsAfter_of_isPlain h none

/-! ## Printable characters -/

theorem ne_of_isPrintable {c d : Char} (hc : isPrintable c = true) (hd : isPrintable d = false) :
    c ≠ d := by
  rintro rfl
  rw [hc] at hd
  cases hd

theorem isControl_of_isPrintable {c : Char} (hc : isPrintable c = true) :
    Console.isControl c = false := by
  rw [Console.isControl, decide_eq_false_iff_not]
  intro hmem
  have hcontrols : ∀ code ∈ [7, 8, 11, 12, 13], inRuns unprintableRuns code = true := by
    decide +kernel
  rw [isPrintable, hcontrols _ hmem] at hc
  cases hc

theorem joiner_notMem_of_isPrintable {text : List Char} (h : ∀ c ∈ text, isPrintable c = true) :
    joiner ∉ text := fun hmem => ne_of_isPrintable (h _ hmem) (by decide +kernel) rfl

/-! ## The parts of a text -/

/-- What stands before a text can make it wider. It cannot make it narrower. -/
theorem cellsAfter_none_le {text : List Char} (h : joiner ∉ text) (last : Option Char) :
    cellsAfter none text ≤ cellsAfter last text := by
  induction text generalizing last with
  | nil => exact Nat.le_refl _
  | cons c rest ih =>
    obtain ⟨hc, hrest⟩ := List.ne_and_not_mem_of_not_mem_cons h
    by_cases hp : c = pictureSign
    · subst hp
      rw [cellsAfter_pictureSign, cellsAfter_pictureSign]
      exact Nat.add_le_add_right (Nat.zero_le _) _
    · rw [cellsAfter_cons _ _ hc.symm hp, cellsAfter_cons _ _ hc.symm hp]
      refine Nat.add_le_add_left ?_ _
      cases measured c with
      | none => exact ih hrest last
      | some d => exact Nat.le_refl _

theorem cellsAfter_add_le {first second : List Char} (h : joiner ∉ first ++ second)
    (last : Option Char) :
    cellsAfter last first + cells second ≤ cellsAfter last (first ++ second) := by
  induction first generalizing last with
  | nil =>
    rw [cellsAfter.eq_1, Nat.zero_add]
    exact cellsAfter_none_le h last
  | cons c rest ih =>
    obtain ⟨hc, hrest⟩ := List.ne_and_not_mem_of_not_mem_cons h
    rw [List.cons_append]
    by_cases hp : c = pictureSign
    · subst hp
      have := ih hrest none
      rw [cellsAfter_pictureSign, cellsAfter_pictureSign]
      omega
    · have := ih hrest ((measured c).or last)
      rw [cellsAfter_cons _ _ hc.symm hp, cellsAfter_cons _ _ hc.symm hp]
      omega

/-- Two texts are not wider alone than one behind the other. -/
theorem cells_add_le {first second : List Char} (h : joiner ∉ first ++ second) :
    cells first + cells second ≤ cells (first ++ second) := cellsAfter_add_le h none

theorem cells_le_of_isPrefix {first text : List Char} (hstart : first <+: text)
    (h : joiner ∉ text) : cells first ≤ cells text := by
  obtain ⟨second, rfl⟩ := hstart
  exact Nat.le_trans (Nat.le_add_right _ _) (cells_add_le h)

theorem splitAt_of_notMem {separator : Char} {text : List Char} (h : separator ∉ text) :
    splitAt separator text = [text] := by
  induction text with
  | nil => rfl
  | cons c rest ih =>
    rw [List.mem_cons, not_or] at h
    simp [splitAt, Ne.symm h.1, ih h.2]

end Text

open Text

namespace Console

/-! ## Runs that stay as they are -/

/-- The runs of a line hold printable characters, and no run is empty. -/
def IsPrintableLine (line : Line) : Prop :=
  ∀ r ∈ line, r.text ≠ [] ∧ ∀ c ∈ r.text, isPrintable c = true

section

variable {line : Line} (h : IsPrintableLine line)

include h in
theorem isPrintable_of_mem_textOf : ∀ c ∈ textOf line, isPrintable c = true := by
  intro c hc
  obtain ⟨r, hr, hmem⟩ := List.mem_flatMap.mp hc
  exact (h r hr).2 c hmem

include h in
theorem joiner_notMem_textOf : joiner ∉ textOf line :=
  joiner_notMem_of_isPrintable (isPrintable_of_mem_textOf h)

include h in
theorem map_cleanRun_of_isPrintableLine : line.map cleanRun = line := by
  refine (List.map_congr_left ?_).trans (List.map_id line)
  intro r hr
  have hkept : ∀ c ∈ r.text, (!isControl c) = true := by
    intro c hc
    rw [isControl_of_isPrintable ((h r hr).2 c hc), Bool.not_false]
  rw [cleanRun, List.filter_eq_self.mpr hkept]
  rfl

theorem splitLine_of_isPrintableLine {line : Line} (h : IsPrintableLine line) :
    splitLine line = [line] := by
  induction line with
  | nil => rfl
  | cons r rest ih =>
    have hbreak : '\n' ∉ r.text := fun hmem =>
      ne_of_isPrintable ((h r List.mem_cons_self).2 _ hmem) (by decide +kernel) rfl
    have hrest := ih fun s hs => h s (List.mem_cons_of_mem _ hs)
    simp [splitLine, splitAt_of_notMem hbreak, hrest]

theorem expandTabs_of_notMem (style : Style) {text : List Char} (h : '\t' ∉ text)
    (chunk : List Char) (column : Nat) :
    (expandTabs style chunk column text).1 = [⟨chunk.reverse ++ text, style⟩] := by
  induction text generalizing chunk with
  | nil => simp [expandTabs]
  | cons c rest ih =>
    rw [List.mem_cons, not_or] at h
    simp [expandTabs, Ne.symm h.1, ih h.2]

theorem expandLine_of_isPrintableLine {line : Line} (h : IsPrintableLine line) (column : Nat) :
    expandLine column line = line := by
  induction line generalizing column with
  | nil => rfl
  | cons r rest ih =>
    have htab : '\t' ∉ r.text := fun hmem =>
      ne_of_isPrintable ((h r List.mem_cons_self).2 _ hmem) (by decide +kernel) rfl
    simp [expandLine, expandTabs_of_notMem r.style htab,
      ih fun s hs => h s (List.mem_cons_of_mem _ hs)]

end

/-! ## Lines that are not broken -/

/-- No character is put into the chunks of a text. -/
theorem flatten_chunksFrom_start (chunk : List Char) (hasWord : Bool) (text : List Char) :
    (chunksFrom chunk hasWord text).flatten <+: chunk.reverse ++ text := by
  fun_induction chunksFrom chunk hasWord text with
  | case1 => simp
  | case2 => simp
  | case3 chunk hasWord c rest _ ih => simpa using ih
  | case4 chunk hasWord c rest _ _ ih => simpa using ih
  | case5 chunk hasWord c rest _ _ ih => simpa using ih

theorem dropBlankEnd_isPrefix (text : List Char) : dropBlankEnd text <+: text := by
  unfold dropBlankEnd dropBlank
  rw [← List.reverse_suffix, List.reverse_reverse]
  exact List.dropWhile_suffix isBlank

/-- Chunks that fit together on the rest of a line are not broken. -/
theorem breaksFrom_eq_nil (width start column : Nat) {chunks : List (List Char)}
    (hjoiner : joiner ∉ chunks.flatten) (hfits : column + cells chunks.flatten ≤ width) :
    breaksFrom width start column chunks = [] := by
  induction chunks generalizing start column with
  | nil => rfl
  | cons chunk later ih =>
    rw [List.flatten_cons] at hjoiner hfits
    have hparts := cells_add_le hjoiner
    rw [List.mem_append, not_or] at hjoiner
    have hword := cells_le_of_isPrefix (dropBlankEnd_isPrefix chunk) hjoiner.1
    unfold breaksFrom
    simp only
    rw [if_pos (by omega)]
    exact ih (start + chunk.length) (column + cells chunk) hjoiner.2 (by omega)

section

variable {width : Nat} {line : Line} (h : IsPrintableLine line)
  (hfits : cells (textOf line) ≤ width)

include h hfits in
theorem breaks_of_fits : breaks width (textOf line) = [] := by
  have hstart : (chunks (textOf line)).flatten <+: textOf line :=
    flatten_chunksFrom_start [] false (textOf line)
  have hjoiner := joiner_notMem_textOf h
  apply breaksFrom_eq_nil
  · exact fun hmem => hjoiner (hstart.subset hmem)
  · have := cells_le_of_isPrefix hstart hjoiner
    omega

include h in
theorem cutLine_of_length_le {n : Nat} (hn : (textOf line).length ≤ n) :
    cutLine n line = (line, []) := by
  induction line generalizing n with
  | nil => cases n <;> rfl
  | cons r rest ih =>
    have hlength : (textOf (r :: rest)).length = r.text.length + (textOf rest).length := by
      simp [textOf]
    have hpos := List.length_pos_iff.mpr (h r List.mem_cons_self).1
    obtain ⟨n, rfl⟩ : ∃ k, n = k + 1 := ⟨n - 1, by omega⟩
    rw [cutLine, if_pos (by omega), ih (fun s hs => h s (List.mem_cons_of_mem _ hs)) (by omega)]
    exact Nat.succ_ne_zero n

include h in
/-- A line loses nothing at its end when no blank stands there, or when it is not too long. -/
theorem trimLine_eq_self
    (hend : dropBlankEnd (textOf line) = textOf line ∨ (textOf line).length ≤ width) :
    trimLine width line = line := by
  have hlost : min ((textOf line).length - (dropBlankEnd (textOf line)).length)
      ((textOf line).length - width) = 0 := by
    rcases hend with hend | hend
    · rw [hend, Nat.sub_self, Nat.zero_min]
    · rw [Nat.sub_eq_zero_of_le hend, Nat.min_zero]
  unfold trimLine
  simp only
  rw [hlost, Nat.sub_zero, cutLine_of_length_le h (Nat.le_refl _)]

include h in
/-- The runs of a line are not wider than the line. -/
theorem sum_cells_le :
    line.foldr (fun r total => cells r.text + total) 0 ≤ cells (textOf line) := by
  induction line with
  | nil => exact Nat.zero_le _
  | cons r rest ih =>
    have hrest := ih fun s hs => h s (List.mem_cons_of_mem _ hs)
    have hparts : cells r.text + cells (textOf rest) ≤ cells (textOf (r :: rest)) :=
      cells_add_le (joiner_notMem_textOf h)
    rw [List.foldr_cons]
    omega

include h hfits in
/-- A line that fits stays one line. -/
theorem wrap_of_fits
    (hend : dropBlankEnd (textOf line) = textOf line ∨ (textOf line).length ≤ width)
    (hjoined : line.foldr consRun [] = line) : wrap width line = [line] := by
  unfold wrap
  rw [map_cleanRun_of_isPrintableLine h, splitLine_of_isPrintableLine h, List.flatMap_singleton]
  unfold wrapLine
  simp only [expandLine_of_isPrintableLine h, hjoined, breaks_of_fits h hfits, cutAt,
    List.map_singleton]
  rw [trimLine_eq_self h hend, cropLine, if_pos hfits]

end

/-! ## Lines of ASCII characters -/

/-- The runs of a line hold printable ASCII characters, and no run is empty. -/
def IsPlainLine (line : Line) : Prop := ∀ r ∈ line, r.text ≠ [] ∧ ∀ c ∈ r.text, isPlain c = true

theorem IsPlainLine.isPrintableLine {line : Line} (h : IsPlainLine line) : IsPrintableLine line :=
  fun r hr => ⟨(h r hr).1, fun c hc => isPrintable_of_isPlain ((h r hr).2 c hc)⟩

theorem IsPlainLine.cells_textOf {line : Line} (h : IsPlainLine line) :
    cells (textOf line) = (textOf line).length := by
  refine cells_of_isPlain fun c hc => ?_
  obtain ⟨r, hr, hmem⟩ := List.mem_flatMap.mp hc
  exact (h r hr).2 c hmem

/-- A line that fits is printed as it is. -/
theorem showLines_wrap_of_fits {s : Settings} {line : Line} (h : IsPlainLine line)
    (hfits : (textOf line).length ≤ s.width) (hjoined : line.foldr consRun [] = line) :
    showLines s (wrap s.width line) = paint s.colors [line] := by
  have hprintable := h.isPrintableLine
  have hcells : cells (textOf line) ≤ s.width := h.cells_textOf ▸ hfits
  unfold showLines
  rw [wrap_of_fits hprintable hcells (Or.inr hfits) hjoined, List.map_singleton, clipLine,
    if_pos (Nat.le_trans (sum_cells_le hprintable) hcells)]

end Console

end DataLayout
