-- The laws of escaped names. A text is read in blocks: backslashes, and behind them a tag,
-- another character or the end. Escaping and rendering both go from block to block, so what is
-- shown of an escaped name is known for each block on its own.
import DataLayout.Console.Markup
import Mathlib.Data.List.Basic

namespace DataLayout.Console.Markup

/-! ## Tags -/

/-- The words of a tag: they start like one, and no bracket is in them. -/
structure IsTag (words : List Char) : Prop where
  starts : ∃ c ∈ words.head?, startsTag c = true
  open_notMem : '[' ∉ words
  close_notMem : ']' ∉ words

/-- The text behind an opening bracket makes it a tag. -/
def OpensTag (text : List Char) : Prop :=
  ∃ words after, text = words ++ ']' :: after ∧ IsTag words

theorem tagRest?_cons {c : Char} (hclose : c ≠ ']') (hopen : c ≠ '[') (rest : List Char) :
    tagRest? (c :: rest) = (tagRest? rest).map fun (body, after) => (c :: body, after) :=
  tagRest?.eq_4 c rest hclose hopen

theorem tagRest?_append {body : List Char} (hopen : '[' ∉ body) (hclose : ']' ∉ body)
    (after : List Char) : tagRest? (body ++ ']' :: after) = some (body, after) := by
  induction body with
  | nil => rfl
  | cons c body ih =>
    rw [List.mem_cons, not_or] at hopen hclose
    rw [List.cons_append, tagRest?_cons (Ne.symm hclose.1) (Ne.symm hopen.1),
      ih hopen.2 hclose.2]
    rfl

theorem eq_of_tagRest? {text body after : List Char} (h : tagRest? text = some (body, after)) :
    text = body ++ ']' :: after ∧ '[' ∉ body ∧ ']' ∉ body := by
  induction text generalizing body after with
  | nil => cases h
  | cons c rest ih =>
    by_cases hclose : c = ']'
    · subst hclose
      cases h
      simp
    by_cases hopen : c = '['
    · subst hopen
      cases h
    rw [tagRest?_cons hclose hopen, Option.map_eq_some_iff] at h
    obtain ⟨⟨b, a⟩, hrest, hpair⟩ := h
    cases hpair
    obtain ⟨rfl, hb⟩ := ih hrest
    exact ⟨rfl, by simpa [Ne.symm hopen, Ne.symm hclose] using hb⟩

theorem tag?_eq_some_iff {text words after : List Char} :
    tag? text = some (words, after) ↔ text = words ++ ']' :: after ∧ IsTag words := by
  constructor
  · intro h
    cases text with
    | nil => cases h
    | cons c rest =>
      by_cases hc : startsTag c = true
      · rw [tag?, if_pos hc, Option.map_eq_some_iff] at h
        obtain ⟨⟨body, a⟩, hrest, hpair⟩ := h
        cases hpair
        obtain ⟨rfl, hopen, hclose⟩ := eq_of_tagRest? hrest
        have hne : ∀ d, startsTag d = false → d ≠ c := by
          rintro d hd rfl
          rw [hc] at hd
          cases hd
        refine ⟨rfl, ⟨c, rfl, hc⟩, ?_, ?_⟩
        · simpa [hne '[' (by decide)] using hopen
        · simpa [hne ']' (by decide)] using hclose
      · rw [tag?, if_neg hc] at h
        cases h
  · rintro ⟨rfl, ⟨c, hc, hstart⟩, hopen, hclose⟩
    cases words with
    | nil => cases hc
    | cons d body =>
      cases hc
      rw [List.mem_cons, not_or] at hopen hclose
      rw [List.cons_append, tag?, if_pos hstart, tagRest?_append hopen.2 hclose.2]
      rfl

theorem isSome_tag?_iff {text : List Char} : (tag? text).isSome = true ↔ OpensTag text := by
  simp only [Option.isSome_iff_exists, Prod.exists, tag?_eq_some_iff, OpensTag]

theorem tag?_eq_none_iff {text : List Char} : tag? text = none ↔ ¬ OpensTag text := by
  rw [← isSome_tag?_iff, Option.not_isSome_iff_eq_none]

instance (text : List Char) : Decidable (OpensTag text) := decidable_of_iff _ isSome_tag?_iff

theorem isSome_tagRest?_cons_iff {c : Char} {rest : List Char} :
    (tagRest? (c :: rest)).isSome = true ↔
      c = ']' ∨ c ≠ '[' ∧ (tagRest? rest).isSome = true := by
  by_cases hclose : c = ']'
  · subst hclose
    simp [tagRest?]
  by_cases hopen : c = '['
  · subst hopen
    simp [tagRest?]
  · simp [tagRest?_cons hclose hopen, hclose, hopen]

theorem opensTag_cons_iff {c : Char} {rest : List Char} :
    OpensTag (c :: rest) ↔ startsTag c = true ∧ (tagRest? rest).isSome = true := by
  rw [← isSome_tag?_iff]
  by_cases hc : startsTag c = true <;> simp [tag?, hc]

theorem isSome_tagRest?_backslashes (n : Nat) (text : List Char) :
    (tagRest? (List.replicate n '\\' ++ text)).isSome = (tagRest? text).isSome := by
  induction n with
  | zero => rfl
  | succ n ih =>
    rw [Bool.eq_iff_iff, List.replicate_succ, List.cons_append, isSome_tagRest?_cons_iff, ih]
    simp

/-- No tag starts with backslashes or with another bracket. -/
theorem not_opensTag_backslashes (n : Nat) (later : List Char) :
    ¬ OpensTag (List.replicate n '\\' ++ '[' :: later) := by
  cases n with
  | zero => simp [opensTag_cons_iff, show startsTag '[' = false by decide]
  | succ n =>
    simp [List.replicate_succ, opensTag_cons_iff, show startsTag '\\' = false by decide]

/-! ## Blocks -/

/-- A text in blocks. Each one is some backslashes with a tag, or with another character that is
no backslash, and at the end of the text with nothing. -/
inductive InBlocks : List Char → Prop
  | ending (n : Nat) : InBlocks (List.replicate n '\\')
  | tag (n : Nat) {words after : List Char} (hwords : IsTag words) (hafter : InBlocks after) :
      InBlocks (List.replicate n '\\' ++ '[' :: (words ++ ']' :: after))
  | other (n : Nat) {c : Char} {rest : List Char} (hc : c ≠ '\\')
      (hopens : c = '[' → ¬ OpensTag rest) (hrest : InBlocks rest) :
      InBlocks (List.replicate n '\\' ++ c :: rest)

theorem InBlocks.backslash {text : List Char} (h : InBlocks text) : InBlocks ('\\' :: text) := by
  cases h with
  | ending n => exact .ending (n + 1)
  | tag n hwords hafter => exact .tag (n + 1) hwords hafter
  | other n hc hopens hrest => exact .other (n + 1) hc hopens hrest

/-- Every text is made of blocks. -/
theorem inBlocks (text : List Char) : InBlocks text := by
  fun_induction pieces text with
  | case1 => exact .ending 0
  | case2 rest ih => exact ih.backslash
  | case3 rest words after htag _ _ ih =>
    obtain ⟨rfl, hwords⟩ := tag?_eq_some_iff.mp htag
    exact .tag 0 hwords ih
  | case4 rest htag _ ih => exact .other 0 (by decide) (fun _ => tag?_eq_none_iff.mp htag) ih
  | case5 c rest hc hopen ih => exact .other 0 hc (fun h => absurd h hopen) ih

/-! ## The pieces of a block -/

/-- Characters before pieces. They join a text that no tag parts from them. -/
def pushText (chars : List Char) : List Piece → List Piece
  | .text later :: rest => .text (chars ++ later) :: rest
  | pieces => .text chars :: pieces

theorem pushChar_eq (c : Char) (ps : List Piece) : pushChar c ps = pushText [c] ps := by
  cases ps with
  | nil => rfl
  | cons p rest => cases p <;> rfl

theorem pushBackslash_pushText (chars : List Char) (ps : List Piece) :
    pushBackslash (pushText chars ps) = pushText ('\\' :: chars) ps := by
  cases ps with
  | nil => rfl
  | cons p rest => cases p <;> rfl

theorem pieces_backslash (rest : List Char) :
    pieces ('\\' :: rest) = pushBackslash (pieces rest) := by
  rw [pieces]
  rfl

theorem pieces_ending (n : Nat) :
    pieces (List.replicate n '\\') = if n = 0 then [] else [.text (List.replicate n '\\')] := by
  induction n with
  | zero => simp [pieces]
  | succ n ih =>
    rw [List.replicate_succ, pieces_backslash, ih]
    cases n <;> rfl

theorem pieces_tag {words : List Char} (h : IsTag words) (n : Nat) (after : List Char) :
    pieces (List.replicate n '\\' ++ '[' :: (words ++ ']' :: after)) =
      .tag n words :: pieces after := by
  induction n with
  | zero =>
    have htag : tag? (words ++ ']' :: after) = some (words, after) :=
      tag?_eq_some_iff.mpr ⟨rfl, h⟩
    simp only [List.replicate_zero, List.nil_append]
    rw [pieces, if_neg (by decide), if_pos rfl]
    split
    · rename_i hfound
      rw [htag] at hfound
      cases hfound
      rfl
    · rename_i hnone
      rw [htag] at hnone
      cases hnone
  | succ n ih =>
    rw [List.replicate_succ, List.cons_append, pieces_backslash, ih]
    rfl

theorem pieces_other {c : Char} {rest : List Char} (hc : c ≠ '\\')
    (hopens : c = '[' → ¬ OpensTag rest) (n : Nat) :
    pieces (List.replicate n '\\' ++ c :: rest) =
      pushText (List.replicate n '\\' ++ [c]) (pieces rest) := by
  induction n with
  | zero =>
    simp only [List.replicate_zero, List.nil_append]
    rw [pieces, if_neg hc, ← pushChar_eq]
    split
    · rename_i hopen
      subst hopen
      split
      · rename_i hfound
        rw [tag?_eq_none_iff.mpr (hopens rfl)] at hfound
        cases hfound
      · rfl
    · rfl
  | succ n ih =>
    rw [List.replicate_succ, List.cons_append, pieces_backslash, ih, pushBackslash_pushText]
    rfl

/-! ## Escaping -/

theorem flatMap_escapePiece_pushText (chars : List Char) (ps : List Piece) :
    (pushText chars ps).flatMap escapePiece = chars ++ ps.flatMap escapePiece := by
  cases ps with
  | nil => simp [pushText, escapePiece]
  | cons p rest => cases p <;> simp [pushText, escapePiece]

/-- The end of a text settles whether it is closed by one more backslash. -/
theorem closeBackslash_append {c : Char} (hc : c ≠ '\\') (front rest : List Char) :
    closeBackslash (front ++ c :: rest) = front ++ c :: closeBackslash rest := by
  obtain ⟨ending, rfl⟩ : ∃ ending, rest = ending.reverse := ⟨rest.reverse, by simp⟩
  unfold closeBackslash
  rw [List.reverse_append, List.reverse_cons, List.reverse_reverse]
  match ending with
  | [] => simp [hc]
  | [d] => by_cases hd : d = '\\' <;> simp [hc, hd]
  | d :: e :: later => by_cases hd : d = '\\' <;> by_cases he : e = '\\' <;> simp [hd, he]

theorem escape_ending (n : Nat) :
    escape (List.replicate n '\\') = List.replicate (if n = 1 then 2 else n) '\\' := by
  unfold escape
  rw [pieces_ending]
  match n with
  | 0 => rfl
  | 1 => rfl
  | n + 2 =>
    rw [if_neg (by omega), if_neg (by omega), List.flatMap_singleton, escapePiece,
      closeBackslash, List.reverse_replicate]
    rfl

theorem escape_tag {words : List Char} (h : IsTag words) (n : Nat) (after : List Char) :
    escape (List.replicate n '\\' ++ '[' :: (words ++ ']' :: after)) =
      List.replicate (2 * n + 1) '\\' ++ '[' :: (words ++ ']' :: escape after) := by
  have hpiece : escapePiece (.tag n words) =
      (List.replicate (2 * n + 1) '\\' ++ '[' :: words) ++ [']'] := rfl
  unfold escape
  rw [pieces_tag h, List.flatMap_cons, hpiece, List.append_assoc, List.singleton_append,
    closeBackslash_append (by decide), List.append_assoc, List.cons_append]

theorem escape_other {c : Char} {rest : List Char} (hc : c ≠ '\\')
    (hopens : c = '[' → ¬ OpensTag rest) (n : Nat) :
    escape (List.replicate n '\\' ++ c :: rest) = List.replicate n '\\' ++ c :: escape rest := by
  unfold escape
  rw [pieces_other hc hopens, flatMap_escapePiece_pushText, List.append_assoc,
    List.singleton_append, closeBackslash_append hc]

/-- Escaping opens no tag, not even with a bracket behind it. -/
theorem opensTag_of_escape {text later : List Char} (h : OpensTag (escape text ++ '[' :: later)) :
    OpensTag text := by
  have hrest : ∀ text, (tagRest? (escape text ++ '[' :: later)).isSome = true →
      (tagRest? text).isSome = true := by
    intro text h
    induction inBlocks text with
    | ending n =>
      rw [escape_ending, isSome_tagRest?_backslashes] at h
      cases h
    | tag n hwords _ _ =>
      rw [escape_tag hwords, List.append_assoc, isSome_tagRest?_backslashes] at h
      cases h
    | other n hc hopens _ ih =>
      rw [escape_other hc hopens, List.append_assoc, isSome_tagRest?_backslashes,
        List.cons_append, isSome_tagRest?_cons_iff] at h
      rw [isSome_tagRest?_backslashes, isSome_tagRest?_cons_iff]
      exact h.imp_right fun h => ⟨h.1, ih h.2⟩
  cases inBlocks text with
  | ending n =>
    rw [escape_ending] at h
    exact absurd h (not_opensTag_backslashes _ _)
  | tag n hwords _ =>
    rw [escape_tag hwords, List.append_assoc] at h
    exact absurd h (not_opensTag_backslashes _ _)
  | other n hc hopens _ =>
    rw [escape_other hc hopens] at h
    cases n with
    | zero =>
      rw [List.replicate_zero, List.nil_append] at h ⊢
      rw [List.cons_append, opensTag_cons_iff] at h
      exact opensTag_cons_iff.mpr ⟨h.1, hrest _ h.2⟩
    | succ n =>
      rw [List.replicate_succ, List.cons_append, List.cons_append, opensTag_cons_iff] at h
      exact absurd h.1 (by decide)

/-! ## Rendering

Here no code stands for a picture. -/

theorem Pictures.drawFrom_none (held : Option (List Char)) (text : List Char) :
    Pictures.none.drawFrom held text = held.elim text fun chars => ':' :: (chars ++ text) := by
  induction text generalizing held with
  | nil => cases held <;> simp [Pictures.drawFrom]
  | cons c rest ih =>
    have hlost : ∀ word, Pictures.none.draw? word = Option.none := fun _ => rfl
    cases held with
    | none => by_cases hc : c = ':' <;> simp [Pictures.drawFrom, hc, ih]
    | some chars =>
      by_cases hc : c = ':'
      · simp [Pictures.drawFrom, hc, ih, hlost]
      · by_cases hblank : Text.isBlank c = true <;> simp [Pictures.drawFrom, hc, hblank, ih]

@[simp] theorem Pictures.drawn_none (text : List Char) : Pictures.none.drawn text = text :=
  drawFrom_none Option.none text

/-- What a text renders to within the styles in use. -/
def renderFrom (styles : List Style) (text : List Char) : Bool × Line :=
  renderPieces .none styles (pieces text)

/-- Characters in the styles in use before what is rendered behind them. -/
def prepend (chars : List Char) (styles : List Style) (later : Bool × Line) : Bool × Line :=
  (true, before chars (combined styles) later.1 later.2)

theorem prepend_prepend (first second : List Char) (styles : List Style) (later : Bool × Line) :
    prepend first styles (prepend second styles later) =
      prepend (first ++ second) styles later := by
  obtain ⟨joined, line⟩ := later
  cases joined with
  | false => rfl
  | true => cases line <;> simp [prepend, before]

/-- What is shown of backslashes and the character behind them. A bracket takes one of them
away. -/
def shownBlock (n : Nat) (c : Char) : List Char :=
  List.replicate (if c = '[' then n - 1 else n) '\\' ++ [c]

theorem openBrackets_cons {c : Char} {rest : List Char}
    (h : c = '\\' → rest.head? ≠ some '[') : openBrackets (c :: rest) = c :: openBrackets rest := by
  refine openBrackets.eq_2 c rest fun later hc hrest => h hc ?_
  rw [hrest, List.head?_cons]

theorem openBrackets_block {c : Char} (hc : c ≠ '\\') (n : Nat) (rest : List Char) :
    openBrackets (List.replicate n '\\' ++ c :: rest) = shownBlock n c ++ openBrackets rest := by
  induction n with
  | zero =>
    rw [List.replicate_zero, List.nil_append, openBrackets_cons fun h => absurd h hc]
    simp [shownBlock]
  | succ n ih =>
    rw [List.replicate_succ, List.cons_append]
    cases n with
    | zero =>
      by_cases hopen : c = '['
      · subst hopen
        simp [openBrackets, shownBlock]
      · rw [openBrackets_cons (by simpa using hopen), ih]
        simp [shownBlock, hopen]
    | succ n =>
      rw [openBrackets_cons (by simp [List.replicate_succ]), ih]
      by_cases hopen : c = '[' <;> simp [shownBlock, hopen, List.replicate_succ]

theorem renderPieces_text (styles : List Style) (chars : List Char) (rest : List Piece) :
    renderPieces .none styles (.text chars :: rest) =
      prepend (openBrackets chars) styles (renderPieces .none styles rest) := by
  rw [renderPieces.eq_2, Pictures.drawn_none]
  rfl

theorem renderPieces_pushText (styles : List Style) {c : Char} (hc : c ≠ '\\') (n : Nat)
    (ps : List Piece) :
    renderPieces .none styles (pushText (List.replicate n '\\' ++ [c]) ps) =
      prepend (shownBlock n c) styles (renderPieces .none styles ps) := by
  have hopened : ∀ chars, openBrackets ((List.replicate n '\\' ++ [c]) ++ chars) =
      shownBlock n c ++ openBrackets chars := by
    intro chars
    rw [List.append_assoc, List.singleton_append, openBrackets_block hc]
  have halone : openBrackets (List.replicate n '\\' ++ [c]) = shownBlock n c := by
    simpa [openBrackets] using hopened []
  match ps with
  | [] => rw [pushText, renderPieces_text, halone]; simp
  | .tag k words :: rest => rw [pushText, renderPieces_text, halone]; simp
  | .text chars :: rest =>
    rw [pushText, renderPieces_text, renderPieces_text, hopened, prepend_prepend]

theorem renderFrom_other (styles : List Style) {c : Char} {rest : List Char} (hc : c ≠ '\\')
    (hopens : c = '[' → ¬ OpensTag rest) (n : Nat) :
    renderFrom styles (List.replicate n '\\' ++ c :: rest) =
      prepend (shownBlock n c) styles (renderFrom styles rest) := by
  unfold renderFrom
  rw [pieces_other hc hopens, renderPieces_pushText styles hc]

/-- An escaped tag is shown with the backslashes that it had. -/
theorem renderFrom_escaped (styles : List Style) {words : List Char} (h : IsTag words) (n : Nat)
    (after : List Char) :
    renderFrom styles (List.replicate (2 * n + 1) '\\' ++ '[' :: (words ++ ']' :: after)) =
      prepend (List.replicate n '\\' ++ '[' :: words ++ [']']) styles
        (renderFrom styles after) := by
  have hodd : (2 * n + 1) % 2 = 1 := by omega
  have hhalf : (2 * n + 1) / 2 = n := by omega
  unfold renderFrom
  rw [pieces_tag h, renderPieces.eq_def]
  simp only [hodd, hhalf, ↓reduceIte, Pictures.drawn_none]
  rw [prepend, List.append_assoc]

theorem isTag_slash : IsTag ['/'] := ⟨⟨'/', rfl, by decide⟩, by decide, by decide⟩

/-- A closing tag ends the innermost style. -/
theorem renderFrom_closing (styles : List Style) (n : Nat) (later : List Char) :
    renderFrom styles (List.replicate (2 * n) '\\' ++ '[' :: '/' :: ']' :: later) =
      if n = 0 then (false, (renderFrom styles.tail later).2)
      else prepend (List.replicate n '\\') styles (false, (renderFrom styles.tail later).2) := by
  have heven : (2 * n) % 2 ≠ 1 := by omega
  have hhalf : (2 * n) / 2 = n := by omega
  have hzero : 2 * n = 0 ↔ n = 0 := by omega
  unfold renderFrom
  rw [show '[' :: '/' :: ']' :: later = '[' :: (['/'] ++ ']' :: later) from rfl,
    pieces_tag isTag_slash, renderPieces.eq_def]
  simp only [heven, hhalf, hzero, ↓reduceIte]
  rfl

/-- An opening tag sets its style for what stands behind it. -/
theorem renderFrom_opening (styles : List Style) {words : List Char} (h : IsTag words)
    (hclosing : words.head? ≠ some '/') (after : List Char) :
    renderFrom styles ('[' :: (words ++ ']' :: after)) =
      (false, (renderFrom (styleOf words :: styles) after).2) := by
  unfold renderFrom
  have hpieces := pieces_tag h 0 after
  rw [List.replicate_zero, List.nil_append] at hpieces
  rw [hpieces, renderPieces.eq_4]
  · rfl
  · rintro later rfl
    exact hclosing rfl

/-- Text without backslashes and brackets is shown as it is. -/
theorem renderFrom_text (styles : List Style) {text : List Char} (hne : text ≠ [])
    (h : ∀ c ∈ text, c ≠ '\\' ∧ c ≠ '[') (rest : List Char) :
    renderFrom styles (text ++ rest) = prepend text styles (renderFrom styles rest) := by
  induction text with
  | nil => exact absurd rfl hne
  | cons c text ih =>
    obtain ⟨⟨hc, hopen⟩, htext⟩ := List.forall_mem_cons.mp h
    have hblock : renderFrom styles (c :: (text ++ rest)) =
        prepend [c] styles (renderFrom styles (text ++ rest)) := by
      simpa [shownBlock] using
        @renderFrom_other styles c (text ++ rest) hc (fun h => absurd h hopen) 0
    rw [List.cons_append, hblock]
    by_cases hempty : text = []
    · rw [hempty, List.nil_append]
    · rw [ih hempty htext, prepend_prepend, List.singleton_append]

/-- The text starts with a bracket that opens no tag. -/
def StartsLone (text : List Char) : Prop := text.head? = some '[' ∧ ¬ OpensTag text.tail

instance (text : List Char) : Decidable (StartsLone text) :=
  inferInstanceAs (Decidable (_ ∧ _))

/-- What is shown of the backslashes at the end of a name. More than one are halved, and an odd
one of these takes the closing tag behind the name for text. -/
def shownEnd (n : Nat) : List Char :=
  if n ≤ 1 then List.replicate n '\\'
  else List.replicate (n / 2) '\\' ++ if n % 2 = 1 then ['[', '/', ']'] else []

/-- What is shown of a name between tags. A backslash before a lone bracket goes away. -/
def shownName : List Char → List Char
  | [] => []
  | c :: rest =>
    if (c :: rest).all (· = '\\') then shownEnd (rest.length + 1)
    else if c = '\\' ∧ StartsLone rest then shownName rest
    else c :: shownName rest

theorem shownName_ending (n : Nat) : shownName (List.replicate n '\\') = shownEnd n := by
  cases n with
  | zero => rfl
  | succ n =>
    rw [List.replicate_succ, shownName, if_pos (by simp), List.length_replicate]

theorem all_backslashes_iff {text : List Char} :
    text.all (· = '\\') = true ↔ ∀ d ∈ text, d = '\\' := by
  simp only [List.all_eq_true, decide_eq_true_eq]

theorem shownName_cons {c : Char} {rest : List Char} (hother : ∃ d ∈ c :: rest, d ≠ '\\')
    (hlone : c = '\\' → ¬ StartsLone rest) : shownName (c :: rest) = c :: shownName rest := by
  obtain ⟨d, hd, hne⟩ := hother
  rw [shownName, if_neg fun hall => hne (all_backslashes_iff.mp hall d hd),
    if_neg fun h => hlone h.1 h.2]

/-- A character that is no backslash is shown, and so is what stands before it. -/
theorem shownName_append {c : Char} (hc : c ≠ '\\') {front rest : List Char}
    (hfront : '[' ∉ front) (hlone : ¬ StartsLone (c :: rest)) :
    shownName (front ++ c :: rest) = front ++ c :: shownName rest := by
  induction front with
  | nil => exact shownName_cons ⟨c, List.mem_cons_self, hc⟩ fun h => absurd h hc
  | cons d front ih =>
    rw [List.mem_cons, not_or] at hfront
    rw [List.cons_append, shownName_cons ⟨c, by simp, hc⟩, ih hfront.2]
    · rfl
    · intro _
      cases front with
      | nil => exact hlone
      | cons e front =>
        rw [List.mem_cons, not_or] at hfront
        exact fun h => hfront.2.1 (Option.some.inj h.1).symm

theorem shownName_tag {words : List Char} (h : IsTag words) (n : Nat) (after : List Char) :
    shownName (List.replicate n '\\' ++ '[' :: (words ++ ']' :: after)) =
      List.replicate n '\\' ++ '[' :: (words ++ ']' :: shownName after) := by
  rw [shownName_append (by decide) (by simp) fun hlone => hlone.2 ⟨words, after, rfl, h⟩,
    shownName_append (by decide) h.open_notMem (by simp [StartsLone])]

theorem shownName_other {c : Char} {rest : List Char} (hc : c ≠ '\\')
    (hopens : c = '[' → ¬ OpensTag rest) (n : Nat) :
    shownName (List.replicate n '\\' ++ c :: rest) = shownBlock n c ++ shownName rest := by
  by_cases hopen : c = '['
  · subst hopen
    have hlone : StartsLone ('[' :: rest) := ⟨rfl, hopens rfl⟩
    induction n with
    | zero => exact shownName_cons ⟨'[', List.mem_cons_self, by decide⟩ (by simp)
    | succ n ih =>
      rw [List.replicate_succ, List.cons_append]
      cases n with
      | zero =>
        rw [shownName, if_neg (by simp), if_pos ⟨rfl, hlone⟩, ih]
        rfl
      | succ n =>
        rw [shownName_cons ⟨'[', by simp, by decide⟩ fun _ h => absurd h.1 (by
          simp [List.replicate_succ]), ih]
        simp [shownBlock, List.replicate_succ]
  · rw [shownName_append hc (by simp) fun h => hopen (Option.some.inj h.1)]
    simp [shownBlock, hopen]

theorem shownEnd_ne_nil {n : Nat} (h : n ≠ 0) : shownEnd n ≠ [] := by
  unfold shownEnd
  by_cases hfew : n ≤ 1
  · simp [hfew, h]
  · have hhalf : n / 2 ≠ 0 := by omega
    simp [hfew, hhalf]

theorem shownName_ne_nil {name : List Char} (h : name ≠ []) : shownName name ≠ [] := by
  induction name with
  | nil => exact absurd rfl h
  | cons c rest ih =>
    unfold shownName
    split_ifs with hall hlone
    · exact shownEnd_ne_nil (Nat.succ_ne_zero _)
    · refine ih fun hnil => ?_
      rw [hnil] at hlone
      cases hlone.2.1
    · exact List.cons_ne_nil _ _

/-- Nothing is shown but characters of the name and of the closing tag. -/
theorem mem_of_mem_shownName {c : Char} {name : List Char} (h : c ∈ shownName name) :
    c ∈ name ∨ c ∈ ['[', '/', ']'] := by
  induction name with
  | nil => cases h
  | cons d rest ih =>
    unfold shownName at h
    split_ifs at h with hall hlone
    · have hd : d = '\\' := all_backslashes_iff.mp hall d List.mem_cons_self
      unfold shownEnd at h
      split_ifs at h with hfew hodd <;> simp only [List.mem_append, List.mem_replicate] at h
      · exact .inl (by simp [hd, h.2])
      · exact h.imp_left fun h => by simp [hd, h.2]
      · exact .inl (by simp_all)
    · exact (ih h).imp_left (List.mem_cons_of_mem d)
    · rcases List.mem_cons.mp h with rfl | h
      · exact .inl List.mem_cons_self
      · exact (ih h).imp_left (List.mem_cons_of_mem d)

/-! ## Escaped names between tags -/

section

variable (styles : List Style) (later : List Char)

/-- An escaped name, the tag that closes its style, and what stands behind that. -/
def closed (name : List Char) : List Char := escape name ++ '[' :: '/' :: ']' :: later

/-- The closing tag behind a name ends its style, or it is taken for text and the style goes
on. -/
def Goes (behind : Bool × Line) : Prop :=
  behind = (false, (renderFrom styles.tail later).2) ∨ behind = renderFrom styles later

theorem renderFrom_closed_ending (n : Nat) :
    ∃ behind, Goes styles later behind ∧ renderFrom styles (closed later (List.replicate n '\\')) =
      if n = 0 then behind else prepend (shownEnd n) styles behind := by
  unfold closed
  rw [escape_ending]
  by_cases hfew : n ≤ 1
  · refine ⟨_, .inl rfl, ?_⟩
    have hdouble : (if n = 1 then 2 else n) = 2 * n := by split <;> omega
    rw [hdouble, renderFrom_closing, shownEnd, if_pos hfew]
  rw [if_neg (by omega), shownEnd, if_neg hfew]
  obtain ⟨m, rfl | rfl⟩ : ∃ m, n = 2 * m ∨ n = 2 * m + 1 := ⟨n / 2, by omega⟩
  · refine ⟨_, .inl rfl, ?_⟩
    rw [renderFrom_closing, if_neg (by omega), if_neg (by omega), if_neg (by omega),
      List.append_nil, Nat.mul_div_cancel_left m (by decide)]
  · refine ⟨_, .inr rfl, ?_⟩
    rw [if_neg (by omega), if_pos (by omega), show (2 * m + 1) / 2 = m by omega]
    have hescaped := renderFrom_escaped styles isTag_slash m later
    rw [List.append_assoc] at hescaped
    exact hescaped

theorem prepend_shownName (chars name : List Char) (behind : Bool × Line) :
    prepend chars styles (if name = [] then behind else prepend (shownName name) styles behind) =
      prepend (chars ++ shownName name) styles behind := by
  by_cases hname : name = []
  · rw [hname, if_pos rfl, shownName, List.append_nil]
  · rw [if_neg hname, prepend_prepend]

/-- An escaped name is shown as `shownName` says, in its style. -/
theorem renderFrom_closed (name : List Char) :
    ∃ behind, Goes styles later behind ∧ renderFrom styles (closed later name) =
      if name = [] then behind else prepend (shownName name) styles behind := by
  induction inBlocks name with
  | ending n =>
    obtain ⟨behind, hgoes, heq⟩ := renderFrom_closed_ending styles later n
    exact ⟨behind, hgoes, by simpa [shownName_ending] using heq⟩
  | @tag n words after hwords _ ih =>
    obtain ⟨behind, hgoes, heq⟩ := ih
    have hblock : closed later (List.replicate n '\\' ++ '[' :: (words ++ ']' :: after)) =
        List.replicate (2 * n + 1) '\\' ++ '[' :: (words ++ ']' :: closed later after) := by
      simp [closed, escape_tag hwords]
    refine ⟨behind, hgoes, ?_⟩
    rw [hblock, renderFrom_escaped styles hwords, heq, prepend_shownName, if_neg (by simp),
      shownName_tag hwords]
    simp
  | @other n c rest hc hopens _ ih =>
    obtain ⟨behind, hgoes, heq⟩ := ih
    have hblock : closed later (List.replicate n '\\' ++ c :: rest) =
        List.replicate n '\\' ++ c :: closed later rest := by
      simp [closed, escape_other hc hopens]
    have hclosed : c = '[' → ¬ OpensTag (closed later rest) :=
      fun hopen h => hopens hopen (opensTag_of_escape h)
    refine ⟨behind, hgoes, ?_⟩
    rw [hblock, renderFrom_other styles hc hclosed, heq, prepend_shownName, if_neg (by simp),
      shownName_other hc hopens]

end

/-! ## Names that are shown as they are -/

/-- No backslash of a name gets lost: none stands right before a lone bracket, and the name does
not end in two of them. -/
def IsSafe (name : List Char) : Prop :=
  (∀ rest, '\\' :: rest <:+ name → ¬ StartsLone rest) ∧ ¬ ['\\', '\\'] <:+ name

theorem shownEnd_eq_iff {n : Nat} : shownEnd n = List.replicate n '\\' ↔ n ≤ 1 := by
  unfold shownEnd
  refine ⟨fun h => ?_, fun hfew => if_pos hfew⟩
  by_contra hmany
  rw [if_neg hmany] at h
  by_cases hodd : n % 2 = 1
  · have hopen : '[' ∈ List.replicate n '\\' := by simp [← h, hodd]
    exact absurd (List.eq_of_mem_replicate hopen) (by decide)
  · have hlength := congrArg List.length h
    simp only [hodd, ↓reduceIte, List.append_nil, List.length_replicate] at hlength
    omega

theorem isSafe_replicate_iff {n : Nat} : IsSafe (List.replicate n '\\') ↔ n ≤ 1 := by
  have hlone : ∀ rest, '\\' :: rest <:+ List.replicate n '\\' → ¬ StartsLone rest := by
    intro rest hrest h
    have hopen := hrest.subset (List.mem_cons_of_mem _ (List.mem_of_mem_head? h.1))
    exact absurd (List.eq_of_mem_replicate hopen) (by decide)
  have htwo : ['\\', '\\'] <:+ List.replicate n '\\' ↔ 2 ≤ n := by
    rw [List.suffix_replicate_iff]
    simp [List.replicate_succ]
  rw [IsSafe, htwo, and_iff_right hlone, Nat.not_le, Nat.lt_succ_iff]

theorem isSafe_cons_iff {c : Char} {rest : List Char} (hother : ∃ d ∈ c :: rest, d ≠ '\\') :
    IsSafe (c :: rest) ↔ ¬ (c = '\\' ∧ StartsLone rest) ∧ IsSafe rest := by
  have htwo : ['\\', '\\'] <:+ c :: rest ↔ ['\\', '\\'] <:+ rest := by
    rw [List.suffix_cons_iff, or_iff_right]
    rintro heq
    obtain ⟨d, hd, hne⟩ := hother
    rw [← heq] at hd
    simp [hne] at hd
  have hlone : (∀ later, '\\' :: later <:+ c :: rest → ¬ StartsLone later) ↔
      ¬ (c = '\\' ∧ StartsLone rest) ∧ ∀ later, '\\' :: later <:+ rest → ¬ StartsLone later := by
    constructor
    · refine fun h => ⟨?_, fun later hlater => h later (hlater.trans (List.suffix_cons c rest))⟩
      rintro ⟨rfl, hrest⟩
      exact h rest List.suffix_rfl hrest
    · rintro ⟨hhead, htail⟩ later hlater
      rcases List.suffix_cons_iff.mp hlater with heq | hlater
      · cases heq
        exact fun hrest => hhead ⟨rfl, hrest⟩
      · exact htail later hlater
  rw [IsSafe, IsSafe, htwo, hlone, and_assoc]

/-- The safe names are those that are shown as they are. -/
theorem shownName_eq_self_iff {name : List Char} : shownName name = name ↔ IsSafe name := by
  induction name with
  | nil => simp [shownName, IsSafe]
  | cons c rest ih =>
    by_cases hall : ∀ d ∈ c :: rest, d = '\\'
    · rw [List.eq_replicate_of_mem hall, shownName_ending, shownEnd_eq_iff, isSafe_replicate_iff]
    have hother : ∃ d ∈ c :: rest, d ≠ '\\' := by
      by_contra hnone
      exact hall fun d hd => by_contra fun hne => hnone ⟨d, hd, hne⟩
    rw [isSafe_cons_iff hother]
    by_cases hlone : c = '\\' ∧ StartsLone rest
    · rw [shownName, if_neg fun h => hall (all_backslashes_iff.mp h), if_pos hlone]
      -- What is shown starts with the bracket, and the name with the backslash before it.
      obtain ⟨later, rfl⟩ := List.head?_eq_some_iff.mp hlone.2.1
      rw [shownName_cons ⟨'[', List.mem_cons_self, by decide⟩ fun h => absurd h (by decide),
        hlone.1]
      refine iff_of_false (by simp) fun h => h.1 ⟨rfl, hlone.2⟩
    · rw [shownName_cons hother fun hc h => hlone ⟨hc, h⟩, List.cons.injEq, ih]
      simp [hlone]

example : shownName "\\[b]/\\[\\\\".toList = "\\[b]/[\\".toList := by decide

end DataLayout.Console.Markup
