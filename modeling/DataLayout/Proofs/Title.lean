-- The law of the title above a printed report. Without its styles it reads the name and the kind.
-- Brackets and slashes of the name are shown as they are, and so are its backslashes, but for
-- those before a lone bracket, and those at the end where there is more than one. A name with the
-- code of a picture is left out.
import DataLayout.Proofs.Blank
import DataLayout.Proofs.Codes
import DataLayout.Proofs.Wrap

namespace DataLayout.Console

open Text

/-! ## Text without styles -/

/-- Reads on in painted text. The flag says whether a control sequence goes on. -/
def unstyledFrom (inSequence : Bool) : List Char → List Char
  | [] => []
  | c :: rest =>
    if inSequence then unstyledFrom (c ≠ 'm') rest
    else if c = '\x1b' then unstyledFrom true rest
    else c :: unstyledFrom false rest

/-- Painted text without its control sequences. -/
def unstyled (text : List Char) : List Char := unstyledFrom false text

theorem unstyled_append {text : List Char} (h : '\x1b' ∉ text) (rest : List Char) :
    unstyled (text ++ rest) = text ++ unstyled rest := by
  unfold unstyled
  induction text with
  | nil => rfl
  | cons c text ih =>
    rw [List.mem_cons, not_or] at h
    simp [unstyledFrom, Ne.symm h.1, ih h.2]

theorem unstyled_sequence {codes : List Char} (h : 'm' ∉ codes) (rest : List Char) :
    unstyled ('\x1b' :: (codes ++ 'm' :: rest)) = unstyled rest := by
  have hcodes : unstyledFrom true (codes ++ 'm' :: rest) = unstyledFrom false rest := by
    induction codes with
    | nil => rfl
    | cons c codes ih =>
      rw [List.mem_cons, not_or] at h
      simp [unstyledFrom, Ne.symm h.1, ih h.2]
  simpa [unstyled, unstyledFrom] using hcodes

/-- The codes of a style are digits with semicolons between them. -/
theorem notMem_codes (style : Style) :
    'm' ∉ (";".intercalate style.codes).toList ∧ '\n' ∉ (";".intercalate style.codes).toList := by
  obtain ⟨isBold, isItalic, color⟩ := style
  cases isBold <;> cases isItalic <;> rcases color with _ | _ | _ | _ <;> decide

/-- A run is printed as it is, or between two control sequences. -/
theorem paintRun_cases (colors : Bool) (r : Run) : paintRun colors r = r.text ∨
    ∃ codes, 'm' ∉ codes ∧ '\n' ∉ codes ∧ paintRun colors r =
      '\x1b' :: (codes ++ 'm' :: (r.text ++ '\x1b' :: (['[', '0'] ++ ['m']))) := by
  unfold paintRun
  simp only
  split_ifs with hempty hplain
  · exact .inl (List.isEmpty_iff.mp hempty).symm
  · exact .inl rfl
  · have hcodes := notMem_codes r.style
    refine .inr ⟨'[' :: (";".intercalate r.style.codes).toList, ?_, ?_, ?_⟩
    · exact List.not_mem_cons_of_ne_of_not_mem (by decide) hcodes.1
    · exact List.not_mem_cons_of_ne_of_not_mem (by decide) hcodes.2
    · rw [show "\x1b[".toList = ['\x1b', '['] by decide,
        show "\x1b[0m".toList = ['\x1b', '[', '0', 'm'] by decide]
      simp only [List.append_assoc, List.cons_append, List.nil_append]

theorem unstyled_paintRun (colors : Bool) {r : Run} (h : '\x1b' ∉ r.text) (rest : List Char) :
    unstyled (paintRun colors r ++ rest) = r.text ++ unstyled rest := by
  rcases paintRun_cases colors r with hrun | ⟨codes, hcodes, _, hrun⟩ <;> rw [hrun]
  · exact unstyled_append h rest
  · have hend : unstyled ('\x1b' :: (['[', '0'] ++ 'm' :: rest)) = unstyled rest :=
      unstyled_sequence (by decide) rest
    simp only [List.append_assoc, List.cons_append, List.nil_append] at hend ⊢
    rw [unstyled_sequence hcodes, unstyled_append h, hend]

theorem newline_notMem_paintRun (colors : Bool) {r : Run} (h : '\n' ∉ r.text) :
    '\n' ∉ paintRun colors r := by
  rcases paintRun_cases colors r with hrun | ⟨codes, _, hcodes, hrun⟩ <;> rw [hrun]
  · exact h
  · simp [h, hcodes]

theorem unstyled_paintRuns (colors : Bool) {line : Line} (h : '\x1b' ∉ textOf line) :
    unstyled (line.flatMap (paintRun colors)) = textOf line := by
  induction line with
  | nil => rfl
  | cons r rest ih =>
    rw [textOf, List.flatMap_cons, List.mem_append, not_or] at h
    rw [List.flatMap_cons, unstyled_paintRun colors h.1, ih h.2]
    rfl

/-- The first printed line, without its line end. -/
def firstLine (printed : String) : List Char := printed.toList.takeWhile (· ≠ '\n')

/-- The first line of painted lines reads its text. -/
theorem unstyled_firstLine_paint (colors : Bool) {line : Line}
    (h : ∀ c ∈ textOf line, isPrintable c = true) (later : List Line) :
    unstyled (firstLine (paint colors (line :: later))) = textOf line := by
  have habsent : ∀ c, isPrintable c = false → c ∉ textOf line := fun c hc hmem =>
    ne_of_isPrintable (h c hmem) hc rfl
  have hline : ∀ c ∈ line.flatMap (paintRun colors), decide (c ≠ '\n') = true := by
    rintro c hc
    obtain ⟨r, hr, hmem⟩ := List.mem_flatMap.mp hc
    have hbreak : '\n' ∉ r.text := fun hbreak =>
      habsent '\n' (by decide +kernel) (List.mem_flatMap.mpr ⟨r, hr, hbreak⟩)
    rw [decide_eq_true_eq]
    rintro rfl
    exact newline_notMem_paintRun colors hbreak hmem
  rw [firstLine, paint, String.toList_ofList, List.flatMap_cons, paintLine, List.append_assoc,
    List.takeWhile_append_of_pos hline, List.singleton_append, List.takeWhile_cons_of_neg (by simp),
    List.append_nil, unstyled_paintRuns colors (habsent '\x1b' (by decide +kernel))]

/-! ## Lines with spaces at their end -/

theorem clustersAfter_spaces (start : Cluster) (last : Option Char) (n : Nat) :
    clustersAfter start last (List.replicate n ' ') =
      start :: List.replicate n ⟨[' '], charCells ' '⟩ := by
  induction n generalizing start last with
  | zero => rfl
  | succ n ih =>
    have hcells : charCells ' ' ≠ 0 := by simp [charCells_of_isPlain (c := ' ') (by decide)]
    rw [List.replicate_succ, clustersAfter.eq_def]
    simp only [show ' ' ≠ joiner by decide, show ' ' ≠ pictureSign by decide, hcells, ↓reduceIte,
      ih, List.replicate_succ]

/-- Of spaces that are cut, spaces are left. -/
theorem cropCells_spaces (width n : Nat) :
    ∃ k, cropCells width (List.replicate n ' ') = List.replicate k ' ' := by
  have hcluster : ∀ n width, ∃ k,
      cropClusters width (List.replicate n ⟨[' '], charCells ' '⟩) = List.replicate k ' ' := by
    intro n
    induction n with
    | zero => exact fun _ => ⟨0, rfl⟩
    | succ n ih =>
      intro width
      rw [List.replicate_succ, cropClusters]
      split_ifs
      · exact ⟨0, rfl⟩
      · obtain ⟨k, hk⟩ := ih (width - charCells ' ')
        exact ⟨k + 1, by rw [hk, List.replicate_succ, List.singleton_append]⟩
      · exact ⟨1, rfl⟩
  unfold cropCells
  split_ifs
  · exact ⟨n, rfl⟩
  · cases n with
    | zero => exact ⟨0, by cases width <;> rfl⟩
    | succ n =>
      rw [List.replicate_succ, clusters, clustersAfter_spaces, ← List.replicate_succ]
      exact hcluster (n + 1) width

/-- A line that fits loses nothing but spaces behind it, when no run but its first one is without
a width. -/
theorem exists_textOf_clipRuns {width : Nat} {line : Line} (n : Nat) (style : Style)
    (hwide : ∀ r ∈ line.tail, 0 < cells r.text)
    (hfits : line.foldr (fun r total => cells r.text + total) 0 ≤ width) :
    ∃ k, textOf (clipRuns width (line ++ [⟨List.replicate n ' ', style⟩])) =
      textOf line ++ List.replicate k ' ' := by
  induction line generalizing width with
  | nil =>
    rw [List.nil_append, clipRuns]
    split_ifs
    · exact ⟨n, by simp [clipRuns, textOf]⟩
    · obtain ⟨k, hk⟩ := cropCells_spaces width n
      exact ⟨k, by simp [textOf, hk]⟩
  | cons r rest ih =>
    rw [List.foldr_cons] at hfits
    rw [List.cons_append, clipRuns]
    split_ifs with hroom
    · obtain ⟨k, hk⟩ := ih (fun s hs => hwide s (List.mem_of_mem_tail hs))
        (Nat.le_sub_of_add_le' hfits)
      refine ⟨k, ?_⟩
      simp only [textOf, List.flatMap_cons, List.append_assoc] at hk ⊢
      rw [hk]
    · -- Nothing with a width has room behind a run that takes all of it.
      have hlast : rest = [] := by
        cases rest with
        | nil => rfl
        | cons s later =>
          have := hwide s List.mem_cons_self
          rw [List.foldr_cons] at hfits
          omega
      have hwhole : cells r.text ≤ width := by omega
      refine ⟨0, ?_⟩
      simp [textOf, cropCells, hlast, hwhole]

theorem exists_textOf_clipLine {width : Nat} {line : Line} (h : IsPrintableLine line) (n : Nat)
    (style : Style) (hwide : ∀ r ∈ line.tail, 0 < cells r.text)
    (hfits : cells (textOf line) ≤ width) :
    ∃ k, textOf (clipLine width (line ++ [⟨List.replicate n ' ', style⟩])) =
      textOf line ++ List.replicate k ' ' := by
  unfold clipLine
  split_ifs
  · exact ⟨n, by simp [textOf]⟩
  · exact exists_textOf_clipRuns n style hwide (Nat.le_trans (sum_cells_le h) hfits)

/-! ## The title of a report -/

/-- The kind of a report in parentheses. -/
def kindText (r : Report) : List Char := '(' :: (r.kind.word.toList ++ [')'])

/-- What is shown of a title: the name as far as it is shown, and the kind. -/
def shownTitle (r : Report) : List Char := Markup.shownName r.name.toList ++ ' ' :: kindText r

namespace Markup

/-- The kind in a title, with its tags. -/
def kindMarkup (r : Report) : List Char :=
  [' '] ++ '[' :: ("magenta".toList ++ ']' :: (kindText r ++ '[' :: '/' :: ']' :: []))

theorem titleMarkup_eq (r : Report) :
    titleMarkup r = '[' :: ("bold".toList ++ ']' :: closed (kindMarkup r) r.name.toList) := by
  unfold titleMarkup closed kindMarkup kindText
  rw [show "[bold]".toList = '[' :: ("bold".toList ++ [']']) by decide,
    show "[/] [magenta](".toList = ['[', '/', ']', ' ', '['] ++ ("magenta".toList ++ [']', '('])
      by decide,
    show ")[/]".toList = [')', '[', '/', ']'] by decide]
  simp only [List.append_assoc, List.cons_append, List.nil_append]

theorem renderFrom_kindMarkup (styles : List Style) (r : Report) :
    renderFrom styles (kindMarkup r) =
      (true, [⟨[' '], combined styles⟩,
        ⟨kindText r, (Style.colored .magenta).atop (combined styles)⟩]) := by
  have htag : IsTag "magenta".toList := ⟨⟨'m', by decide, by decide⟩, by decide, by decide⟩
  have hkind : ∀ c ∈ kindText r, c ≠ '\\' ∧ c ≠ '[' := by
    unfold kindText
    cases r.kind <;> simp [Kind.word]
  have hne : kindText r ≠ [] := List.cons_ne_nil _ _
  have hclosing := renderFrom_closing (styleOf "magenta".toList :: styles) 0 []
  rw [Nat.mul_zero, List.replicate_zero, List.nil_append, if_pos rfl] at hclosing
  have hend : renderFrom styles [] = (false, []) := by simp [renderFrom, pieces, renderPieces]
  unfold kindMarkup
  rw [renderFrom_text styles (by simp) (by simp), renderFrom_opening styles htag (by decide),
    renderFrom_text _ hne hkind, hclosing, List.tail_cons, hend]
  rfl

/-- The title of a report: the name in bold, a space, and the kind in its colour. Where the name
takes its closing tag for text, all of it is bold. -/
theorem title_cases {r : Report} (h : r.name ≠ "") :
    (reportTable .none r).title = [⟨shownName r.name.toList, .bold⟩, ⟨[' '], .plain⟩,
        ⟨kindText r, .colored .magenta⟩] ∨
      (reportTable .none r).title = [⟨shownName r.name.toList ++ [' '], .bold⟩,
        ⟨kindText r, .boldColored .magenta⟩] := by
  have htag : IsTag "bold".toList := ⟨⟨'b', by decide, by decide⟩, by decide, by decide⟩
  have hne : r.name.toList ≠ [] := by simpa using h
  obtain ⟨behind, hgoes, hname⟩ :=
    renderFrom_closed [styleOf "bold".toList] (kindMarkup r) r.name.toList
  have htitle : (reportTable .none r).title =
      (prepend (shownName r.name.toList) [styleOf "bold".toList] behind).2 := by
    have hopened := renderFrom_opening [] htag (by decide) (closed (kindMarkup r) r.name.toList)
    rw [← titleMarkup_eq, hname, if_neg hne] at hopened
    have hline := congrArg Prod.snd hopened
    exact hline
  rw [htitle]
  rcases hgoes with rfl | rfl <;> rw [renderFrom_kindMarkup]
  · exact .inl rfl
  · exact .inr rfl

/-- The tags of a title bring no code about. -/
theorem holdsCode_of_titleMarkup {pictures : Pictures} {r : Report}
    (h : HoldsCode pictures (titleMarkup r)) : HoldsCode pictures r.name.toList := by
  have hfront : ':' ∉ '[' :: "bold".toList := by decide
  have hbehind : ':' ∉ '/' :: ']' :: kindMarkup r := by
    unfold kindMarkup kindText
    cases r.kind <;> decide
  rw [titleMarkup_eq, ← List.cons_append] at h
  have hclosed := (holdsCode_append_close h).resolve_left fun hcode => hfront hcode.colon_mem
  have hname := (holdsCode_append_open hclosed).resolve_right fun hcode => hbehind hcode.colon_mem
  exact holdsCode_of_escape hname

/-- The title of a name without a code has no pictures. -/
theorem title_of_not_holdsCode {pictures : Pictures} {r : Report}
    (h : ¬ HoldsCode pictures r.name.toList) :
    (reportTable pictures r).title = (reportTable .none r).title :=
  render_of_not_holdsCode fun htitle => h (holdsCode_of_titleMarkup htitle)

end Markup

/-- A line that is drawn as a title: its runs are printable and stay apart, only the first one may
be without a width, and the spaces behind the last one are a run of their own. -/
structure IsTitle (text : List Char) (line : Line) : Prop where
  textOf_eq : textOf line = text
  printable : IsPrintableLine line
  joined : line.foldr consRun [] = line
  wide : ∀ r ∈ line.tail, 0 < cells r.text
  padded : ∀ width, padLine width line =
    line ++ [⟨List.replicate (width - cells (textOf line)) ' ', .plain⟩]

theorem isPlain_kindText (r : Report) : ∀ c ∈ kindText r, isPlain c = true := by
  unfold kindText
  cases r.kind <;> exact List.all_eq_true.mp (by decide)

theorem cells_kindText_pos (r : Report) : 0 < cells (kindText r) := by
  rw [cells_of_isPlain (isPlain_kindText r)]
  exact Nat.succ_pos _

theorem isPrintable_shownName {name : List Char} (h : ∀ c ∈ name, isPrintable c = true) :
    ∀ c ∈ Markup.shownName name, isPrintable c = true := by
  intro c hc
  rcases Markup.mem_of_mem_shownName hc with hc | hc
  · exact h c hc
  · exact isPrintable_of_isPlain
      (List.all_eq_true.mp (show ['[', '/', ']'].all isPlain = true by decide) c hc)

theorem isPlain_shownTitle {r : Report} (h : ∀ c ∈ r.name.toList, isPlain c = true) :
    ∀ c ∈ shownTitle r, isPlain c = true := by
  refine List.forall_mem_append.mpr ⟨fun c hc => ?_, List.forall_mem_cons.mpr
    ⟨by decide, isPlain_kindText r⟩⟩
  rcases Markup.mem_of_mem_shownName hc with hc | hc
  · exact h c hc
  · exact List.all_eq_true.mp (show ['[', '/', ']'].all isPlain = true by decide) c hc

theorem isTitle {pictures : Markup.Pictures} {r : Report} (hname : r.name ≠ "")
    (hprintable : ∀ c ∈ r.name.toList, isPrintable c = true)
    (hcode : ¬ Markup.HoldsCode pictures r.name.toList) :
    IsTitle (shownTitle r) (reportTable pictures r).title := by
  have hne : Markup.shownName r.name.toList ≠ [] :=
    Markup.shownName_ne_nil (by simpa using hname)
  have hshown := isPrintable_shownName hprintable
  have hkind : ∀ c ∈ kindText r, isPrintable c = true :=
    fun c hc => isPrintable_of_isPlain (isPlain_kindText r c hc)
  have hkindne : kindText r ≠ [] := List.cons_ne_nil _ _
  have hwide := cells_kindText_pos r
  have hspace : ∀ c ∈ [' '], isPrintable c = true :=
    List.forall_mem_singleton.mpr (isPrintable_of_isPlain (by decide))
  have hspacewide : 0 < cells [' '] := by
    rw [cells_of_isPlain (List.forall_mem_singleton.mpr (by decide))]
    exact Nat.one_pos
  rw [Markup.title_of_not_holdsCode hcode]
  rcases Markup.title_cases hname with htitle | htitle <;> rw [htitle]
  · refine ⟨by simp [textOf, shownTitle], ?_, rfl, by simpa using ⟨hspacewide, hwide⟩, fun _ => rfl⟩
    exact List.forall_mem_cons.mpr ⟨⟨hne, hshown⟩, List.forall_mem_cons.mpr
      ⟨⟨by decide, hspace⟩, List.forall_mem_singleton.mpr ⟨hkindne, hkind⟩⟩⟩
  · refine ⟨by simp [textOf, shownTitle], ?_, rfl, by simpa using hwide, fun _ => rfl⟩
    exact List.forall_mem_cons.mpr ⟨⟨by simp, List.forall_mem_append.mpr ⟨hshown, hspace⟩⟩,
      List.forall_mem_singleton.mpr ⟨hkindne, hkind⟩⟩

/-- A title ends in a parenthesis, so nothing is cut off there. -/
theorem dropBlankEnd_shownTitle (r : Report) :
    dropBlankEnd (shownTitle r) = shownTitle r := by
  have htext : shownTitle r =
      Markup.shownName r.name.toList ++ ' ' :: '(' :: r.kind.word.toList ++ [')'] := by
    simp [shownTitle, kindText]
  rw [htext]
  exact dropBlankEnd_of_endsInked (endsInked_append _ (by decide))

theorem textOf_onto (style : Style) (line : Line) : textOf (onto style line) = textOf line := by
  simp [textOf, onto, List.flatMap_map]

section

variable {s : Settings} {r : Report} (hname : r.name ≠ "")
  (hprintable : ∀ c ∈ r.name.toList, isPrintable c = true)
  (hcode : ¬ Markup.HoldsCode s.pictures r.name.toList)
  (hfits : cells (shownTitle r) ≤ min (reportTable s.pictures r).width s.width)

include hname hprintable hcode hfits

/-- A title that fits is one line, with spaces behind it. -/
theorem exists_titleLine : ∃ line gap,
    (reportTable s.pictures r).titleLines.map (clipLine s.width) = [line] ∧
      textOf line = shownTitle r ++ List.replicate gap ' ' ∧
      ∀ c ∈ textOf line, isPrintable c = true := by
  have htitle := isTitle hname hprintable hcode
  obtain ⟨htable, hscreen⟩ := Nat.le_min.mp hfits
  rw [← htitle.textOf_eq] at htable
  -- The title is one line, in italics and with a run of spaces behind it.
  obtain ⟨n, hlines⟩ : ∃ n, (reportTable s.pictures r).titleLines =
      [onto .italic (reportTable s.pictures r).title ++ [⟨List.replicate n ' ', .italic⟩]] := by
    refine ⟨(reportTable s.pictures r).width - cells (textOf (reportTable s.pictures r).title), ?_⟩
    unfold Table.titleLines
    rw [wrap_of_fits htitle.printable htable
      (.inl (by rw [htitle.textOf_eq, dropBlankEnd_shownTitle])) htitle.joined, List.map_singleton,
      htitle.padded, onto, List.map_append]
    rfl
  -- The screen may cut these spaces.
  have hitalic : IsPrintableLine (onto .italic (reportTable s.pictures r).title) :=
    List.forall_mem_map.mpr htitle.printable
  have hwide : ∀ run ∈ (onto .italic (reportTable s.pictures r).title).tail,
      0 < cells run.text := by
    rw [onto, ← List.map_tail]
    exact List.forall_mem_map.mpr htitle.wide
  have htext : textOf (onto .italic (reportTable s.pictures r).title) = shownTitle r := by
    rw [textOf_onto, htitle.textOf_eq]
  obtain ⟨k, hk⟩ := exists_textOf_clipLine hitalic n .italic hwide (htext ▸ hscreen)
  rw [htext] at hk
  refine ⟨_, k, by rw [hlines, List.map_singleton], hk, ?_⟩
  rw [hk, ← htitle.textOf_eq]
  refine List.forall_mem_append.mpr ⟨isPrintable_of_mem_textOf htitle.printable, ?_⟩
  intro c hc
  rw [List.eq_of_mem_replicate hc]
  exact isPrintable_of_isPlain (by decide)

/-- A title that fits is the first printed line. -/
theorem exists_firstLine :
    ∃ gap, unstyled (firstLine (showReport s r)) = shownTitle r ++ List.replicate gap ' ' := by
  obtain ⟨line, gap, htitle, htext, hline⟩ := exists_titleLine hname hprintable hcode hfits
  refine ⟨gap, ?_⟩
  unfold showReport showLines reportLines Table.lines
  rw [List.append_assoc, List.append_assoc, List.append_assoc, List.map_append, htitle,
    List.singleton_append, unstyled_firstLine_paint _ hline, htext]

end

theorem dropBlankEnd_append_spaces (text : List Char) (n : Nat) :
    dropBlankEnd (text ++ List.replicate n ' ') = dropBlankEnd text := by
  have hspaces : ∀ c ∈ List.replicate n ' ', isBlank c = true := by
    intro c hc
    rw [List.eq_of_mem_replicate hc]
    decide
  rw [dropBlankEnd, dropBlank, List.reverse_append, List.reverse_replicate,
    List.dropWhile_append_of_pos hspaces]
  rfl

/-! ## The width of a report -/

theorem le_foldl_max (widths : List Nat) (least : Nat) : least ≤ widths.foldl max least := by
  induction widths generalizing least with
  | nil => exact Nat.le_refl _
  | cons width rest ih => exact Nat.le_trans (Nat.le_max_left least width) (ih _)

theorem le_columnWidth {heading : String} (h : heading.toList.all isPlain = true) (toRight : Bool)
    (runs : List Run) : heading.toList.length ≤ Table.columnWidth ⟨heading, toRight, runs⟩ := by
  rw [← cells_of_isPlain (List.all_eq_true.mp h)]
  exact le_foldl_max _ _

/-- The headings alone leave room for titles of 37 cells. -/
theorem le_width_reportTable (pictures : Markup.Pictures) (r : Report) :
    37 ≤ (reportTable pictures r).width := by
  have hpacking : 7 ≤ _ :=
    le_columnWidth (show "Packing".toList.all isPlain = true by decide) false
      (Packing.reported.map fun p => plainRun p.heading)
  have hsize : 4 ≤ _ :=
    le_columnWidth (show "Size".toList.all isPlain = true by decide) true
      ((Packing.reported.map r.layout).map fun l => ⟨numeral l.size, .plain⟩)
  have halignment : 9 ≤ _ :=
    le_columnWidth (show "Alignment".toList.all isPlain = true by decide) true
      ((Packing.reported.map r.layout).map fun l => ⟨numeral l.alignment, .plain⟩)
  have hloss : 4 ≤ _ :=
    le_columnWidth (show "Loss".toList.all isPlain = true by decide) true
      ((Packing.reported.map r.layout).map fun l => lossRun l.loss)
  unfold Table.width reportTable
  simp only [List.map_cons, List.map_nil, List.foldl_cons, List.foldl_nil, List.length_cons,
    List.length_nil]
  omega

/-- A title in plain characters has room under the headings up to 37 of them. -/
theorem cells_shownTitle_le {s : Settings} {r : Report}
    (hplain : (shownTitle r).all isPlain = true) (hlength : (shownTitle r).length ≤ 37)
    (hscreen : 37 ≤ s.width) :
    cells (shownTitle r) ≤ min (reportTable s.pictures r).width s.width := by
  rw [cells_of_isPlain (List.all_eq_true.mp hplain)]
  exact Nat.le_trans hlength (Nat.le_min.mpr ⟨le_width_reportTable s.pictures r, hscreen⟩)

/-! ## The law -/

/-- The title of a printed report: its first line without styles and without the spaces behind
it. -/
def titleText (printed : String) : List Char := dropBlankEnd (unstyled (firstLine printed))

/-- The title of a printed report shows the name as it is, unless backslashes of it get lost. A
title that is not too wide reads what is shown of the name, and the kind in parentheses, when no
code of a picture is in the name. This is the name itself exactly for the safe names: those
without a backslash right before a bracket that opens no tag, and without two backslashes at the
end. Other brackets, slashes and backslashes are all shown. -/
theorem a_title_reads_its_name_unless_backslashes_get_lost {s : Settings} {r : Report}
    (hname : r.name ≠ "") (hprintable : ∀ c ∈ r.name.toList, isPrintable c = true)
    (hcode : ¬ Markup.HoldsCode s.pictures r.name.toList)
    (hfits : cells (shownTitle r) ≤ min (reportTable s.pictures r).width s.width) :
    titleText (showReport s r) = shownTitle r ∧
      (titleText (showReport s r) = r.name.toList ++ ' ' :: kindText r ↔
        Markup.IsSafe r.name.toList) := by
  obtain ⟨gap, hline⟩ := exists_firstLine hname hprintable hcode hfits
  have htitle : titleText (showReport s r) = shownTitle r := by
    rw [titleText, hline, dropBlankEnd_append_spaces, dropBlankEnd_shownTitle]
  refine ⟨htitle, ?_⟩
  rw [htitle, shownTitle, List.append_left_inj, Markup.shownName_eq_self_iff]

/-- A pair under some name. -/
def pairReport (name : String) : Report :=
  ⟨name, .struct, ⟨8, 4, 3⟩, ⟨5, 1, 0⟩, ⟨5, 4, 0⟩, some ["int", "char"]⟩

/-- Two names with one title: all of the first one is shown, and the second one loses a backslash
before a lone bracket and another one at its end. -/
theorem two_names_share_a_title :
    titleText (showReport ⟨80, true, .none⟩ (pairReport "\\[b]/[\\")) =
      "\\[b]/[\\ (struct)".toList ∧
    titleText (showReport ⟨80, true, .none⟩ (pairReport "\\[b]/\\[\\\\")) =
      "\\[b]/[\\ (struct)".toList := by
  have hplain : ∀ name : String, name.toList.all isPlain = true →
      ∀ c ∈ name.toList, isPrintable c = true :=
    fun _ hname c hc => isPrintable_of_isPlain (List.all_eq_true.mp hname c hc)
  obtain ⟨hsafe, _⟩ := @a_title_reads_its_name_unless_backslashes_get_lost ⟨80, true, .none⟩
    (pairReport "\\[b]/[\\") (by decide) (hplain _ (by decide))
    (Markup.not_holdsCode (by decide)) (cells_shownTitle_le (by decide) (by decide) (by decide))
  obtain ⟨hlost, _⟩ := @a_title_reads_its_name_unless_backslashes_get_lost ⟨80, true, .none⟩
    (pairReport "\\[b]/\\[\\\\") (by decide) (hplain _ (by decide))
    (Markup.not_holdsCode (by decide)) (cells_shownTitle_le (by decide) (by decide) (by decide))
  exact ⟨hsafe.trans (by decide), hlost.trans (by decide)⟩

end DataLayout.Console
