-- The law of lines that do not fit. A line of printable ASCII characters is broken into lines that
-- are not wider than the screen, and nothing of it is lost but blanks at the ends of these.
import DataLayout.Proofs.Blank
import DataLayout.Proofs.Wrap

namespace DataLayout

open Console Text

namespace Text

/-! ## Ink -/

/-- The characters of a text that are no blanks. -/
def inked (text : List Char) : List Char := text.filter (!isBlank ·)

theorem inked_append (first second : List Char) :
    inked (first ++ second) = inked first ++ inked second :=
  List.filter_append first second

theorem inked_flatMap {α : Type} (f : α → List Char) (parts : List α) :
    inked (parts.flatMap f) = parts.flatMap fun part => inked (f part) :=
  List.filter_flatMap ..

theorem inked_blanks {blanks : List Char} (h : ∀ c ∈ blanks, isBlank c = true) :
    inked blanks = [] :=
  List.filter_eq_nil_iff.mpr fun c hc => by simp [h c hc]

/-- What stands before a text is not longer without the blanks behind it. -/
theorem length_dropBlankEnd_append_le (first second : List Char) :
    (dropBlankEnd (first ++ second)).length ≤ first.length + (dropBlankEnd second).length := by
  obtain ⟨blanks, hsecond, hblanks⟩ := exists_blanks second
  have hreverse : ∀ c ∈ blanks.reverse, isBlank c = true :=
    fun c hc => hblanks c (List.mem_reverse.mp hc)
  have hdropped : dropBlankEnd (first ++ second) = dropBlankEnd (first ++ dropBlankEnd second) := by
    conv_lhs => rw [hsecond]
    unfold dropBlankEnd dropBlank
    simp only [List.reverse_append, List.append_assoc]
    rw [List.dropWhile_append_of_pos hreverse]
  rw [hdropped, ← List.length_append]
  exact (dropBlankEnd_isPrefix _).length_le

end Text

namespace Console

/-! ## Cut texts -/

/-- The parts of a text between ascending positions, the first of which is counted from
`start`. -/
def cutText (start : Nat) (text : List Char) : List Nat → List (List Char)
  | [] => [text]
  | p :: later => text.take (p - start) :: cutText p (text.drop (p - start)) later

theorem textOf_cutLine (n : Nat) (line : Line) :
    textOf (cutLine n line).1 = (textOf line).take n ∧
      textOf (cutLine n line).2 = (textOf line).drop n := by
  induction line generalizing n with
  | nil => cases n <;> simp [cutLine, textOf]
  | cons r rest ih =>
    cases n with
    | zero => simp [cutLine, textOf]
    | succ n =>
      by_cases hr : r.text.length ≤ n + 1
      · obtain ⟨hfirst, hrest⟩ := ih (n + 1 - r.text.length)
        simp only [textOf] at hfirst hrest
        simp [cutLine, hr, textOf, List.take_append, List.drop_append, List.take_of_length_le hr,
          List.drop_of_length_le hr, hfirst, hrest]
      · have hnone : n + 1 - r.text.length = 0 := by omega
        simp [cutLine, hr, textOf, List.take_append, List.drop_append, hnone]

theorem map_textOf_cutAt (start : Nat) (line : Line) (positions : List Nat) :
    (cutAt start line positions).map textOf = cutText start (textOf line) positions := by
  induction positions generalizing start line with
  | nil => rfl
  | cons p later ih =>
    obtain ⟨hfirst, hrest⟩ := textOf_cutLine (p - start) line
    simp [cutAt, cutText, ih, hfirst, hrest]

theorem flatten_cutText (start : Nat) (text : List Char) (positions : List Nat) :
    (cutText start text positions).flatten = text := by
  induction positions generalizing start text with
  | nil => simp [cutText]
  | cons p later ih => rw [cutText, List.flatten_cons, ih, List.take_append_drop]

theorem cutText_append_cons {start p : Nat} {first : List Char} (hp : p = start + first.length)
    (rest : List Char) (later : List Nat) :
    cutText start (first ++ rest) (p :: later) = first :: cutText p rest later := by
  subst hp
  simp [cutText]

/-! ## Parts that fit -/

/-- Without the blanks at its end a text is not too long. -/
def Fits (width : Nat) (text : List Char) : Prop := (dropBlankEnd text).length ≤ width

theorem fits_of_length_le {width : Nat} {text : List Char} (h : text.length ≤ width) :
    Fits width text :=
  Nat.le_trans (dropBlankEnd_isPrefix text).length_le h

/-- Pieces of a word, each of which has characters and not too many of them. -/
def ArePieces (width : Nat) (pieces : List (List Char)) : Prop :=
  ∀ piece ∈ pieces, piece ≠ [] ∧ piece.length ≤ width

theorem clusters_of_isPlain {text : List Char} (h : ∀ c ∈ text, isPlain c = true) :
    clusters text = text.map fun c => ⟨[c], 1⟩ := by
  have hafter : ∀ (text : List Char) (start : Cluster) (last : Option Char),
      (∀ c ∈ text, isPlain c = true) →
      clustersAfter start last text = start :: text.map fun c => ⟨[c], 1⟩ := by
    intro text
    induction text with
    | nil => exact fun _ _ _ => rfl
    | cons c rest ih =>
      intro start last h
      obtain ⟨hc, hrest⟩ := List.forall_mem_cons.mp h
      rw [clustersAfter.eq_def]
      simp only [ne_of_isPlain hc (show isPlain joiner = false by decide),
        ne_of_isPlain hc (show isPlain pictureSign = false by decide), charCells_of_isPlain hc,
        ↓reduceIte, Nat.one_ne_zero, ih _ _ hrest, List.map_cons]
  cases text with
  | nil => rfl
  | cons c rest =>
    obtain ⟨hc, hrest⟩ := List.forall_mem_cons.mp h
    rw [clusters, hafter rest _ _ hrest, charCells_of_isPlain hc, List.map_cons]

theorem piecesFrom_of_ne_nil {width : Nat} (hwidth : 0 < width) {piece : List Char}
    (hne : piece ≠ []) (hpiece : piece.length ≤ width) (text : List Char) :
    let pieces := piecesFrom width piece piece.length (text.map fun c => ⟨[c], 1⟩)
    pieces.flatten = piece ++ text ∧ ArePieces width pieces := by
  induction text generalizing piece with
  | nil => simp [piecesFrom, ArePieces, hne, hpiece]
  | cons c rest ih =>
    rw [List.map_cons, piecesFrom]
    by_cases hroom : piece.length + 1 ≤ width
    · have hgrown := @ih (piece ++ [c]) (by simp) (by simpa using hroom)
      rw [List.length_append, List.length_singleton, List.append_assoc,
        List.singleton_append] at hgrown
      rw [if_pos hroom]
      exact hgrown
    · obtain ⟨hflatten, hpieces⟩ := @ih [c] (by simp) hwidth
      rw [if_neg hroom]
      refine ⟨?_, List.forall_mem_cons.mpr ⟨⟨hne, hpiece⟩, hpieces⟩⟩
      rw [List.flatten_cons]
      exact congrArg (piece ++ ·) hflatten

/-- A word of ASCII characters is cut into pieces that fit. -/
theorem pieces_of_isPlain {width : Nat} (hwidth : 0 < width) {text : List Char} (hne : text ≠ [])
    (h : ∀ c ∈ text, isPlain c = true) :
    (piecesFrom width [] 0 (clusters text)).flatten = text ∧
      ArePieces width (piecesFrom width [] 0 (clusters text)) := by
  obtain ⟨c, rest, rfl⟩ := List.exists_cons_of_ne_nil hne
  have hroom : 0 + 1 ≤ width := hwidth
  rw [clusters_of_isPlain h, List.map_cons, piecesFrom]
  simp only [hroom, ↓reduceIte]
  exact piecesFrom_of_ne_nil hwidth (List.cons_ne_nil c []) hwidth rest

theorem filter_startsOf {start : Nat} (hstart : 0 < start) (pieces : List (List Char)) :
    (startsOf start pieces).filter (· ≠ 0) = startsOf start pieces := by
  induction pieces generalizing start with
  | nil => rfl
  | cons piece later ih =>
    rw [startsOf, List.filter_cons_of_pos (by simpa using Nat.ne_of_gt hstart),
      ih (Nat.add_pos_left hstart _)]

/-- A break at the start of the whole text only puts an empty part before the others. -/
theorem cutText_filter_subset {width start begin : Nat} {pieces : List (List Char)}
    (hpieces : ArePieces width pieces) (hbegin : begin ≤ start) (text : List Char)
    (later : List Nat) :
    cutText begin text ((startsOf start pieces).filter (· ≠ 0) ++ later) ⊆
      cutText begin text (startsOf start pieces ++ later) := by
  by_cases hstart : start = 0
  · subst hstart
    obtain rfl : begin = 0 := Nat.le_zero.mp hbegin
    cases pieces with
    | nil => exact fun _ h => h
    | cons piece more =>
      obtain ⟨⟨hne, _⟩, _⟩ := List.forall_mem_cons.mp hpieces
      have hlength : 0 < 0 + piece.length := by simpa using List.length_pos_iff.mpr hne
      rw [startsOf, List.filter_cons_of_neg (by simp), filter_startsOf hlength]
      exact fun _ h => List.mem_cons_of_mem _ h
  · rw [filter_startsOf (Nat.pos_of_ne_zero hstart)]
    exact fun _ h => h

/-- Where a line breaks at the starts of pieces, the parts are what stands before the pieces, the
pieces, and what becomes of the last one with what stands behind it. -/
theorem fits_of_pieces {width start : Nat} {before last rest : List Char}
    {pieces : List (List Char)} {later : List Nat} (hbefore : Fits width before)
    (hpieces : ArePieces width pieces) (hlast : pieces.getLast? = some last)
    (hrest : ∀ part ∈ cutText (start + before.length + pieces.flatten.length - last.length)
      (last ++ rest) later, Fits width part) :
    ∀ part ∈ cutText start (before ++ (pieces.flatten ++ rest))
      (startsOf (start + before.length) pieces ++ later), Fits width part := by
  induction pieces generalizing start before with
  | nil => cases hlast
  | cons piece more ih =>
    rw [startsOf, List.cons_append, cutText_append_cons rfl]
    obtain ⟨⟨_, hpiece⟩, hmore⟩ := List.forall_mem_cons.mp hpieces
    refine List.forall_mem_cons.mpr ⟨hbefore, ?_⟩
    cases more with
    | nil =>
      cases hlast
      simpa [startsOf] using hrest
    | cons next more =>
      rw [List.flatten_cons, List.append_assoc]
      refine ih (fits_of_length_le hpiece) hmore (by simpa using hlast) ?_
      rw [List.flatten_cons, List.length_append, ← Nat.add_assoc] at hrest
      exact hrest

section

variable {width : Nat} (hwidth : 0 < width)

include hwidth in
/-- Lines that are broken before a chunk, or at the pieces of one, fit. The characters of the
current line are `line`, and they end where the next chunk starts. -/
theorem fits_breaksFrom {start : Nat} {line : List Char} {chunks : List (List Char)}
    (h : ∀ c ∈ chunks.flatten, isPlain c = true) (hstart : line.length ≤ start)
    (hline : Fits width line) :
    ∀ part ∈ cutText (start - line.length) (line ++ chunks.flatten)
      (breaksFrom width start line.length chunks), Fits width part := by
  induction chunks generalizing start line with
  | nil => simpa [breaksFrom, cutText] using hline
  | cons chunk later ih =>
    rw [List.flatten_cons] at h ⊢
    obtain ⟨hchunk, hlater⟩ := List.forall_mem_append.mp h
    have hword : cells (dropBlankEnd chunk) = (dropBlankEnd chunk).length :=
      cells_of_isPlain fun c hc => hchunk c ((dropBlankEnd_isPrefix chunk).subset hc)
    unfold breaksFrom
    simp only [hword, cells_of_isPlain hchunk]
    split_ifs with hroom hlong hbreak
    · -- The chunk goes on the line.
      have hgrown := @ih (start + chunk.length) (line ++ chunk) hlater
        (by simpa using hstart) (Nat.le_trans (length_dropBlankEnd_append_le _ _) hroom)
      rw [List.length_append, Nat.add_sub_add_right, List.append_assoc] at hgrown
      exact hgrown
    · -- The chunk is cut, and the line goes on with its last piece.
      have hne : chunk ≠ [] := by
        rintro rfl
        exact Nat.not_lt_zero _ hlong
      obtain ⟨hflatten, hpieces⟩ := pieces_of_isPlain hwidth hne hchunk
      generalize piecesFrom width [] 0 (clusters chunk) = pieces at hflatten hpieces ⊢
      subst hflatten
      have hsome : pieces ≠ [] := by
        rintro rfl
        exact hne rfl
      have hlast := List.getLast?_eq_some_getLast hsome
      have hmem : pieces.getLast hsome ∈ pieces := List.getLast_mem hsome
      have hlength := (List.sublist_flatten_of_mem hmem).length_le
      have hcells : cells (pieces.getLast hsome) = (pieces.getLast hsome).length :=
        cells_of_isPlain fun c hc => hchunk c (List.mem_flatten_of_mem hmem hc)
      have hrest := @ih (start + pieces.flatten.length) (pieces.getLast hsome) hlater
        (Nat.le_trans hlength (Nat.le_add_left _ _)) (fits_of_length_le (hpieces _ hmem).2)
      have hall := @fits_of_pieces _ (start - line.length) _ _ _ _ _ hline hpieces hlast
        (by rw [Nat.sub_add_cancel hstart]; exact hrest)
      rw [Nat.sub_add_cancel hstart] at hall
      rw [hlast, Option.map_some, Option.getD_some, hcells]
      exact fun part hpart => hall part (cutText_filter_subset hpieces (Nat.sub_le _ _) _ _ hpart)
    · -- The chunk starts a line.
      rw [cutText_append_cons (by omega)]
      refine List.forall_mem_cons.mpr ⟨hline, ?_⟩
      have hnext := @ih (start + chunk.length) chunk hlater (Nat.le_add_left _ _)
        (Nat.not_lt.mp hlong)
      rw [Nat.add_sub_cancel] at hnext
      exact hnext
    · omega

end

/-! ## Chunks of a text -/

/-- The chunks of a text make it up, unless it has no word. -/
theorem flatten_chunksFrom (chunk : List Char) (hasWord : Bool) (text : List Char) :
    (chunksFrom chunk hasWord text).flatten = chunk.reverse ++ text ∨
      chunksFrom chunk hasWord text = [] ∧ hasWord = false ∧ ∀ c ∈ text, isBlank c = true := by
  fun_induction chunksFrom chunk hasWord text with
  | case1 => simp
  | case2 => simp_all
  | case3 chunk hasWord c rest hc ih => simpa [hc] using ih
  | case4 chunk hasWord c rest hc _ ih => simpa using ih
  | case5 chunk hasWord c rest hc _ ih => exact .inl (by simpa using ih)

/-- The parts between the breaks of a text fit. -/
theorem fits_of_mem_cutText {width : Nat} (hwidth : 0 < width) {text : List Char}
    (h : ∀ c ∈ text, isPlain c = true) :
    ∀ part ∈ cutText 0 text (breaks width text), Fits width part := by
  rcases flatten_chunksFrom [] false text with hflatten | ⟨hnone, _, hblanks⟩
  · have hchunks : (chunks text).flatten = text := hflatten
    have hfits := @fits_breaksFrom width hwidth 0 [] (chunks text)
      (by rwa [hchunks]) (Nat.le_refl 0) (Nat.zero_le width)
    rw [hchunks] at hfits
    exact hfits
  · have hchunks : chunks text = [] := hnone
    rw [breaks, hchunks]
    refine List.forall_mem_singleton.mpr ?_
    rw [Fits, dropBlankEnd_blanks hblanks]
    exact Nat.zero_le width

/-! ## Lines of a line -/

theorem textOf_foldr_consRun (line : Line) : textOf (line.foldr consRun []) = textOf line := by
  induction line with
  | nil => rfl
  | cons r rest ih =>
    have hcons : ∀ joined, textOf (consRun r joined) = r.text ++ textOf joined := by
      intro joined
      cases joined with
      | nil => rfl
      | cons next later =>
        simp only [consRun]
        split_ifs <;> simp [textOf]
    rw [List.foldr_cons, hcons, ih]
    rfl

/-- Text that fits loses blanks alone when it is cut behind them. -/
theorem inked_take {text : List Char} {n : Nat} (hn : (dropBlankEnd text).length ≤ n) :
    inked (text.take n) = inked text := by
  obtain ⟨blanks, htext, hblanks⟩ := exists_blanks text
  have hkept : text.take n = dropBlankEnd text ++ blanks.take (n - (dropBlankEnd text).length) := by
    conv_lhs => rw [htext]
    rw [List.take_append, List.take_of_length_le hn]
  rw [hkept, inked_append, inked_blanks fun c hc => hblanks c (List.mem_of_mem_take hc)]
  conv_rhs => rw [htext, inked_append, inked_blanks hblanks]

section

variable {width : Nat} {line : Line}

/-- A part of a line that fits keeps all but blanks, and it is not too long behind that. -/
theorem textOf_trimLine (h : Fits width (textOf line)) :
    (textOf (trimLine width line)).length ≤ width ∧
      textOf (trimLine width line) ⊆ textOf line ∧
      inked (textOf (trimLine width line)) = inked (textOf line) := by
  unfold Fits at h
  unfold trimLine
  simp only [(textOf_cutLine _ line).1]
  refine ⟨?_, List.take_subset _ _, inked_take ?_⟩
  · rw [List.length_take]
    omega
  · have := (dropBlankEnd_isPrefix (textOf line)).length_le
    omega

/-- The text of a line is ASCII, and it is not wider than a screen. -/
structure IsShort (width : Nat) (line : Line) : Prop where
  plain : ∀ c ∈ textOf line, isPlain c = true
  length_le : (textOf line).length ≤ width

/-- A broken line leaves lines that fit, and nothing but blanks is missing in them. -/
theorem wrap_of_isPlainLine (h : IsPlainLine line) (hwidth : 0 < width) :
    (∀ part ∈ wrap width line, IsShort width part) ∧
      inked ((wrap width line).flatMap textOf) = inked (textOf line) := by
  have hprintable := h.isPrintableLine
  have hplain : ∀ c ∈ textOf line, isPlain c = true := by
    intro c hc
    obtain ⟨r, hr, hmem⟩ := List.mem_flatMap.mp hc
    exact (h r hr).2 c hmem
  have hparts := map_textOf_cutAt 0 (line.foldr consRun []) (breaks width (textOf line))
  rw [textOf_foldr_consRun] at hparts
  have hfits : ∀ part ∈ cutAt 0 (line.foldr consRun []) (breaks width (textOf line)),
      Fits width (textOf part) ∧ ∀ c ∈ textOf part, isPlain c = true := by
    intro part hpart
    have hmem := List.mem_map_of_mem (f := textOf) hpart
    rw [hparts] at hmem
    refine ⟨fits_of_mem_cutText hwidth hplain _ hmem, fun c hc => hplain c ?_⟩
    rw [← flatten_cutText 0 (textOf line) (breaks width (textOf line))]
    exact List.mem_flatten_of_mem hmem hc
  have hwrap : wrap width line =
      (cutAt 0 (line.foldr consRun []) (breaks width (textOf line))).map (trimLine width) := by
    unfold wrap
    rw [map_cleanRun_of_isPrintableLine hprintable, splitLine_of_isPrintableLine hprintable,
      List.flatMap_singleton]
    unfold wrapLine
    simp only [expandLine_of_isPrintableLine hprintable, textOf_foldr_consRun]
    refine List.map_congr_left fun part hpart => ?_
    obtain ⟨hfit, hpartplain⟩ := hfits part hpart
    obtain ⟨hlength, hsubset, _⟩ := textOf_trimLine hfit
    rw [cropLine, cells_of_isPlain fun c hc => hpartplain c (hsubset hc), if_pos hlength]
  rw [hwrap]
  constructor
  · refine List.forall_mem_map.mpr fun part hpart => ?_
    obtain ⟨hfit, hpartplain⟩ := hfits part hpart
    obtain ⟨hlength, hsubset, _⟩ := textOf_trimLine hfit
    exact ⟨fun c hc => hpartplain c (hsubset hc), hlength⟩
  · have htrimmed : ∀ part ∈ cutAt 0 (line.foldr consRun []) (breaks width (textOf line)),
        inked (textOf (trimLine width part)) = inked (textOf part) :=
      fun part hpart => (textOf_trimLine (hfits part hpart).1).2.2
    rw [List.flatMap_map, inked_flatMap, List.flatMap_congr htrimmed, ← inked_flatMap,
      List.flatMap_def, hparts, flatten_cutText]

end

end Console

end DataLayout
