-- The laws of codes between colons. Without a code in it a text is drawn as it is, and neither
-- escaping nor rendering brings a code about.
import DataLayout.Proofs.Markup

namespace DataLayout.Console.Markup

/-! ## Words in a text -/

theorem prefix_of_prefix_append_cons {c : Char} {word front rest : List Char} (hc : c ∉ word)
    (h : word <+: front ++ c :: rest) : word <+: front := by
  have hfront : front ++ [c] <+: front ++ c :: rest := ⟨rest, by simp⟩
  rcases List.prefix_or_prefix_of_prefix h hfront with hword | hword
  · refine (List.prefix_concat_iff.mp hword).resolve_left fun heq => hc ?_
    simp [heq]
  · exact absurd (hword.subset (by simp)) hc

/-- A character that is not in a word parts the texts that it may be in. -/
theorem infix_of_infix_append_cons {c : Char} {word front rest : List Char} (hc : c ∉ word)
    (h : word <:+: front ++ c :: rest) : word <:+: front ∨ word <:+: rest := by
  induction front with
  | nil =>
    refine (List.infix_cons_iff.mp h).imp_left fun hprefix => ?_
    exact (prefix_of_prefix_append_cons hc hprefix).isInfix
  | cons d front ih =>
    rcases List.infix_cons_iff.mp h with hprefix | hrest
    · exact .inl (prefix_of_prefix_append_cons hc hprefix).isInfix
    · exact (ih hrest).imp_left fun hfront => List.infix_cons hfront

/-! ## Codes in a text -/

section

variable {pictures : Pictures}

/-- A code of a picture is in a text. -/
def HoldsCode (pictures : Pictures) (text : List Char) : Prop :=
  ∃ word, (pictures.draw? word).isSome = true ∧ ':' :: (word ++ [':']) <:+: text

theorem HoldsCode.mono {text whole : List Char} (h : HoldsCode pictures text)
    (hinside : text <:+: whole) : HoldsCode pictures whole :=
  let ⟨word, hdrawn, hword⟩ := h
  ⟨word, hdrawn, hword.trans hinside⟩

theorem HoldsCode.colon_mem {text : List Char} (h : HoldsCode pictures text) : ':' ∈ text :=
  let ⟨_, _, hword⟩ := h
  hword.subset List.mem_cons_self

theorem not_holdsCode {text : List Char} (h : ':' ∉ text) : ¬ HoldsCode pictures text :=
  fun hcode => h hcode.colon_mem

theorem notMem_code {word : List Char} (h : (pictures.draw? word).isSome = true) :
    '[' ∉ ':' :: (word ++ [':']) ∧ ']' ∉ ':' :: (word ++ [':']) ∧
      '\\' ∉ ':' :: (word ++ [':']) := by
  simpa using pictures.bare word h

theorem holdsCode_append_open {front rest : List Char}
    (h : HoldsCode pictures (front ++ '[' :: rest)) :
    HoldsCode pictures front ∨ HoldsCode pictures rest :=
  let ⟨word, hdrawn, hword⟩ := h
  (infix_of_infix_append_cons (notMem_code hdrawn).1 hword).imp
    (fun hfront => ⟨word, hdrawn, hfront⟩) fun hrest => ⟨word, hdrawn, hrest⟩

theorem holdsCode_append_close {front rest : List Char}
    (h : HoldsCode pictures (front ++ ']' :: rest)) :
    HoldsCode pictures front ∨ HoldsCode pictures rest :=
  let ⟨word, hdrawn, hword⟩ := h
  (infix_of_infix_append_cons (notMem_code hdrawn).2.1 hword).imp
    (fun hfront => ⟨word, hdrawn, hfront⟩) fun hrest => ⟨word, hdrawn, hrest⟩

theorem drawFrom_of_not_holdsCode {held : Option (List Char)} {text : List Char}
    (h : ¬ HoldsCode pictures (held.elim text fun chars => ':' :: (chars ++ text))) :
    pictures.drawFrom held text = held.elim text fun chars => ':' :: (chars ++ text) := by
  induction text generalizing held with
  | nil => cases held <;> simp [Pictures.drawFrom]
  | cons c rest ih =>
    have hrest : ¬ HoldsCode pictures rest := by
      refine fun hcode => h (hcode.mono ?_)
      cases held with
      | none => exact (List.suffix_cons c rest).isInfix
      | some chars => exact ⟨':' :: (chars ++ [c]), [], by simp⟩
    have hplain : pictures.drawFrom none rest = rest := @ih none hrest
    cases held with
    | none =>
      by_cases hc : c = ':'
      · subst hc
        rw [Pictures.drawFrom, if_pos rfl, @ih (some []) h]
        rfl
      · rw [Pictures.drawFrom, if_neg hc, hplain]
        rfl
    | some chars =>
      by_cases hc : c = ':'
      · subst hc
        have hlost : pictures.draw? chars = none := by
          refine Option.not_isSome_iff_eq_none.mp fun hdrawn => h ⟨chars, hdrawn, [], rest, ?_⟩
          simp
        simp [Pictures.drawFrom, hlost, hplain]
      · by_cases hblank : Text.isBlank c = true
        · simp [Pictures.drawFrom, hc, hblank, hplain]
        · rw [Pictures.drawFrom, if_neg hc, if_neg hblank,
            @ih (some (chars ++ [c])) (by simpa using h)]
          simp

/-- A text without a code is drawn as it is. -/
theorem drawn_of_not_holdsCode {text : List Char} (h : ¬ HoldsCode pictures text) :
    pictures.drawn text = text :=
  @drawFrom_of_not_holdsCode pictures none text h

/-! ## Codes of a rendered text -/

theorem prefix_of_prefix_openBrackets {word text : List Char} (hopen : '[' ∉ word)
    (h : word <+: openBrackets text) : word <+: text := by
  fun_induction openBrackets text generalizing word with
  | case1 rest _ =>
    rw [List.prefix_cons_iff] at h
    rcases h with rfl | ⟨later, rfl, _⟩
    · exact List.nil_prefix
    · simp at hopen
  | case2 c rest _ ih =>
    rw [List.prefix_cons_iff] at h ⊢
    refine h.imp_right fun ⟨later, hword, hlater⟩ => ⟨later, hword, ih ?_ hlater⟩
    exact fun hmem => hopen (hword ▸ List.mem_cons_of_mem c hmem)
  | case3 => exact h

/-- A backslash before a bracket is in no code, so none comes about when it goes away. -/
theorem infix_of_infix_openBrackets {word text : List Char} (hopen : '[' ∉ word)
    (h : word <:+: openBrackets text) : word <:+: text := by
  fun_induction openBrackets text with
  | case1 rest ih =>
    have hrest : word <:+: openBrackets rest := by
      rcases List.infix_cons_iff.mp h with hprefix | hrest
      · have hnil : word <+: [] := @prefix_of_prefix_append_cons '[' word [] _ hopen hprefix
        exact (hnil.trans List.nil_prefix).isInfix
      · exact hrest
    exact List.infix_cons (List.infix_cons (ih hrest))
  | case2 c rest hother ih =>
    rcases List.infix_cons_iff.mp h with hprefix | hrest
    · rw [← openBrackets.eq_2 c rest hother] at hprefix
      exact (prefix_of_prefix_openBrackets hopen hprefix).isInfix
    · exact List.infix_cons (ih hrest)
  | case3 => exact h

/-- The characters that a piece stands for. -/
def Piece.source : Piece → List Char
  | .text chars => chars
  | .tag n words => List.replicate n '\\' ++ '[' :: (words ++ [']'])

theorem flatMap_source_pushText (chars : List Char) (ps : List Piece) :
    (pushText chars ps).flatMap Piece.source = chars ++ ps.flatMap Piece.source := by
  cases ps with
  | nil => simp [pushText, Piece.source]
  | cons p rest => cases p <;> simp [pushText, Piece.source]

/-- The pieces of a text make it up. -/
theorem flatMap_source_pieces (text : List Char) : (pieces text).flatMap Piece.source = text := by
  induction inBlocks text with
  | ending n =>
    rw [pieces_ending]
    by_cases hn : n = 0 <;> simp [hn, Piece.source]
  | tag n hwords _ ih => simp [pieces_tag hwords, Piece.source, ih]
  | other n hc hopens _ ih => simp [pieces_other hc hopens, flatMap_source_pushText, ih]

theorem renderPieces_of_not_holdsCode (styles : List Style) {ps : List Piece}
    (h : ¬ HoldsCode pictures (ps.flatMap Piece.source)) :
    renderPieces pictures styles ps = renderPieces .none styles ps := by
  induction ps generalizing styles with
  | nil => rfl
  | cons p rest ih =>
    have hrest : ¬ HoldsCode pictures (rest.flatMap Piece.source) :=
      fun hcode => h (hcode.mono ⟨p.source, [], by simp⟩)
    have hpiece : ¬ HoldsCode pictures p.source :=
      fun hcode => h (hcode.mono ⟨[], rest.flatMap Piece.source, by simp⟩)
    cases p with
    | text chars =>
      have hopened : ¬ HoldsCode pictures (openBrackets chars) := fun ⟨word, hdrawn, hword⟩ =>
        hpiece ⟨word, hdrawn, infix_of_infix_openBrackets (notMem_code hdrawn).1 hword⟩
      rw [renderPieces, renderPieces, ih styles hrest, drawn_of_not_holdsCode hopened,
        Pictures.drawn_none]
    | tag n words =>
      have htag : ¬ HoldsCode pictures ('[' :: words ++ [']']) :=
        fun hcode => hpiece (hcode.mono ⟨List.replicate n '\\', [], by simp [Piece.source]⟩)
      rw [renderPieces.eq_def, renderPieces.eq_def]
      simp only [ih _ hrest, drawn_of_not_holdsCode htag, Pictures.drawn_none]

/-- A text without a code is rendered as if there were no pictures. -/
theorem render_of_not_holdsCode {text : List Char} (h : ¬ HoldsCode pictures text) :
    render pictures text = render .none text := by
  rw [render, renderPieces_of_not_holdsCode [] (by rwa [flatMap_source_pieces]), render]

/-! ## Codes of an escaped text -/

/-- Words behind backslashes start behind them. -/
theorem infix_of_infix_backslashes {word later : List Char} {n : Nat} (hword : '\\' ∉ word)
    (h : word <:+: List.replicate n '\\' ++ later) : word <:+: later := by
  induction n with
  | zero => exact h
  | succ n ih =>
    rcases List.infix_cons_iff.mp h with hprefix | hrest
    · have hnil : word <+: [] := @prefix_of_prefix_append_cons '\\' word [] _ hword hprefix
      exact (hnil.trans List.nil_prefix).isInfix
    · exact ih hrest

theorem prefix_of_prefix_backslashes {word later whole : List Char} {n : Nat} (hn : n ≠ 0)
    (hword : '\\' ∉ word) (h : word <+: List.replicate n '\\' ++ later) : word <+: whole := by
  obtain ⟨m, rfl⟩ := Nat.exists_eq_succ_of_ne_zero hn
  have hnil : word <+: [] := @prefix_of_prefix_append_cons '\\' word [] _ hword h
  exact hnil.trans List.nil_prefix

theorem prefix_of_prefix_escape {word text : List Char} (hword : '\\' ∉ word)
    (h : word <+: escape text) : word <+: text := by
  induction inBlocks text generalizing word with
  | ending n =>
    rw [escape_ending] at h
    by_cases hn : n = 0
    · subst hn
      exact h
    · rw [← List.append_nil (List.replicate _ _)] at h
      exact prefix_of_prefix_backslashes (by split <;> omega) hword h
  | tag n hwords _ _ =>
    rw [escape_tag hwords] at h
    exact prefix_of_prefix_backslashes (Nat.succ_ne_zero _) hword h
  | @other n c rest hc hopens _ ih =>
    rw [escape_other hc hopens] at h
    by_cases hn : n = 0
    · rw [hn, List.replicate_zero, List.nil_append, List.prefix_cons_iff] at h ⊢
      refine h.imp_right fun ⟨later, heq, hlater⟩ => ⟨later, heq, ih ?_ hlater⟩
      exact fun hmem => hword (heq ▸ List.mem_cons_of_mem c hmem)
    · exact prefix_of_prefix_backslashes hn hword h

/-- Escaping puts backslashes into a text, and no code is made of them. -/
theorem infix_of_infix_escape {word text : List Char} (hopen : '[' ∉ word) (hclose : ']' ∉ word)
    (hword : '\\' ∉ word) (h : word <:+: escape text) : word <:+: text := by
  induction inBlocks text with
  | ending n =>
    rw [escape_ending, ← List.append_nil (List.replicate _ _)] at h
    exact (infix_of_infix_backslashes hword h).trans List.nil_infix
  | @tag n words after hwords _ ih =>
    rw [escape_tag hwords] at h
    rcases infix_of_infix_append_cons hopen h with hfront | hinside
    · rw [← List.append_nil (List.replicate _ _)] at hfront
      exact (infix_of_infix_backslashes hword hfront).trans List.nil_infix
    rcases infix_of_infix_append_cons hclose hinside with hwordin | hafter
    · exact hwordin.trans ⟨List.replicate n '\\' ++ ['['], ']' :: after, by simp⟩
    · exact (ih hafter).trans ⟨List.replicate n '\\' ++ '[' :: (words ++ [']']), [], by simp⟩
  | @other n c rest hc hopens _ ih =>
    rw [escape_other hc hopens] at h
    have hrest : c :: rest <:+: List.replicate n '\\' ++ c :: rest :=
      (List.suffix_append _ _).isInfix
    refine List.IsInfix.trans ?_ hrest
    rcases List.infix_cons_iff.mp (infix_of_infix_backslashes hword h) with hprefix | hinside
    · have hescape : escape (c :: rest) = c :: escape rest := escape_other hc hopens 0
      rw [← hescape] at hprefix
      exact (prefix_of_prefix_escape hword hprefix).isInfix
    · exact List.infix_cons (ih hinside)

theorem holdsCode_of_escape {text : List Char} (h : HoldsCode pictures (escape text)) :
    HoldsCode pictures text :=
  let ⟨word, hdrawn, hword⟩ := h
  let ⟨hopen, hclose, hbackslash⟩ := notMem_code hdrawn
  ⟨word, hdrawn, infix_of_infix_escape hopen hclose hbackslash hword⟩

end

end DataLayout.Console.Markup
