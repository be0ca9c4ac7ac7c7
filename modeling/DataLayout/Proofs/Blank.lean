-- The laws of blanks. Blanks at the ends of a line belong to no word. So a trimmed line has the
-- words of the whole line, and it starts with the first of them, if there is one.
import Mathlib.Data.List.DropRight
import DataLayout.Text.Blank

namespace DataLayout.Text

/-! ## Words among blanks -/

theorem words_cons_of_blank {c : Char} (hc : isBlank c = true) (rest : List Char) :
    words (c :: rest) = words rest := by
  simp [words, wordsFrom, hc]

/-- Blanks end a word that is being read, and no other one follows. -/
theorem wordsFrom_blanks {blanks : List Char} (h : ∀ c ∈ blanks, isBlank c = true)
    (word : List Char) : wordsFrom word blanks = wordsFrom word [] := by
  induction blanks generalizing word with
  | nil => rfl
  | cons c rest ih =>
    have hrest := ih (fun b hb => h b (List.mem_cons_of_mem _ hb)) []
    have hnone : wordsFrom [] [] = [] := rfl
    by_cases hword : word = []
    · subst hword
      simp [wordsFrom, h c List.mem_cons_self, hrest]
    · simp [wordsFrom, h c List.mem_cons_self, hrest, hword]

theorem wordsFrom_append_blanks {blanks : List Char} (h : ∀ c ∈ blanks, isBlank c = true)
    (word text : List Char) : wordsFrom word (text ++ blanks) = wordsFrom word text := by
  induction text generalizing word with
  | nil => exact wordsFrom_blanks h word
  | cons c rest ih => simp only [List.cons_append, wordsFrom, ih]

/-- A word that is being read is the start of the next word of the text. -/
theorem wordsFrom_of_ne_nil {word : List Char} (hword : word ≠ []) (text : List Char) :
    ∃ more later, wordsFrom word text = (word.reverse ++ more) :: later := by
  induction text generalizing word with
  | nil => exact ⟨[], [], by simp [wordsFrom, hword]⟩
  | cons c rest ih =>
    by_cases hc : isBlank c = true
    · exact ⟨[], wordsFrom [] rest, by simp [wordsFrom, hc, hword]⟩
    · obtain ⟨more, later, hrest⟩ := ih (List.cons_ne_nil c word)
      exact ⟨c :: more, later, by simp [wordsFrom, hc, hrest]⟩

/-! ## Margins -/

theorem dropBlank_cases (text : List Char) :
    dropBlank text = [] ∨ ∃ c rest, dropBlank text = c :: rest ∧ isBlank c = false := by
  cases h : dropBlank text with
  | nil => exact Or.inl rfl
  | cons c rest =>
    have hhead := List.head?_dropWhile_not isBlank text
    rw [show text.dropWhile isBlank = c :: rest from h] at hhead
    exact Or.inr ⟨c, rest, rfl, hhead⟩

theorem dropBlankEnd_cons {c : Char} (hc : isBlank c = false) (rest : List Char) :
    dropBlankEnd (c :: rest) = c :: dropBlankEnd rest := by
  unfold dropBlankEnd dropBlank
  rw [List.reverse_cons, List.dropWhile_append]
  split
  · rename_i hnone
    simp [hc, List.isEmpty_iff.mp hnone]
  · simp

theorem words_dropBlank (text : List Char) : words (dropBlank text) = words text := by
  induction text with
  | nil => rfl
  | cons c rest ih =>
    by_cases hc : isBlank c = true
    · rw [words_cons_of_blank hc, ← ih]
      simp [dropBlank, hc]
    · simp [dropBlank, hc]

/-- The blanks behind a text. -/
theorem exists_blanks (text : List Char) :
    ∃ blanks, text = dropBlankEnd text ++ blanks ∧ ∀ c ∈ blanks, isBlank c = true := by
  refine ⟨(text.reverse.takeWhile isBlank).reverse, ?_, fun c hc => ?_⟩
  · unfold dropBlankEnd dropBlank
    rw [← List.reverse_append, List.takeWhile_append_dropWhile, List.reverse_reverse]
  · exact List.mem_takeWhile_imp (List.mem_reverse.mp hc)

theorem dropBlankEnd_blanks {blanks : List Char} (h : ∀ c ∈ blanks, isBlank c = true) :
    dropBlankEnd blanks = [] := by
  unfold dropBlankEnd dropBlank
  rw [List.dropWhile_eq_nil_iff.mpr fun c hc => h c (List.mem_reverse.mp hc), List.reverse_nil]

/-- The last character of a text is no blank. -/
def EndsInked (text : List Char) : Prop := text.getLast?.any (!isBlank ·) = true

instance (text : List Char) : Decidable (EndsInked text) := inferInstanceAs (Decidable (_ = true))

theorem endsInked_append (front : List Char) {text : List Char} (h : EndsInked text) :
    EndsInked (front ++ text) := by
  unfold EndsInked at h ⊢
  rw [List.getLast?_append]
  cases hlast : text.getLast? with
  | none => simp [hlast] at h
  | some c => rwa [hlast] at h

/-- A text that ends in no blank loses nothing. -/
theorem dropBlankEnd_of_endsInked {text : List Char} (h : EndsInked text) :
    dropBlankEnd text = text := by
  obtain rfl | ⟨front, c, rfl⟩ := List.eq_nil_or_concat text
  · cases h
  · have hc : isBlank c = false := by simpa [EndsInked] using h
    simp [dropBlankEnd, dropBlank, hc]

theorem words_dropBlankEnd (text : List Char) : words (dropBlankEnd text) = words text := by
  obtain ⟨blanks, htext, hblanks⟩ := exists_blanks text
  have hwords := wordsFrom_append_blanks hblanks [] (dropBlankEnd text)
  rw [← htext] at hwords
  exact hwords.symm

/-- A trimmed text has the same words. -/
theorem words_trim (text : List Char) : words (trim text) = words text := by
  unfold trim
  rw [words_dropBlankEnd, words_dropBlank]

/-- Nothing is left of a text without words, and else the first word is at the start. -/
theorem trim_cases (text : List Char) :
    trim text = [] ∧ words text = [] ∨
      ∃ c rest first later, trim text = c :: rest ∧ isBlank c = false ∧
        words text = (c :: first) :: later := by
  unfold trim
  rcases dropBlank_cases text with hnone | ⟨c, rest, hrest, hc⟩
  · refine Or.inl ⟨by rw [hnone]; rfl, ?_⟩
    rw [← words_dropBlank, hnone]
    rfl
  · obtain ⟨more, later, hwords⟩ := wordsFrom_of_ne_nil (List.cons_ne_nil c []) rest
    refine Or.inr ⟨c, dropBlankEnd rest, more, later, ?_, hc, ?_⟩
    · rw [hrest, dropBlankEnd_cons hc]
    · rw [← words_dropBlank, hrest]
      simpa [words, wordsFrom, hc] using hwords

theorem trim_trim (text : List Char) : trim (trim text) = trim text := by
  have hend : dropBlankEnd (trim text) = trim text :=
    List.rdropWhile_idempotent isBlank (dropBlank text)
  have hstart : dropBlank (trim text) = trim text := by
    rcases trim_cases text with ⟨hnone, _⟩ | ⟨c, rest, _, _, hrest, hc, _⟩
    · rw [hnone]
      rfl
    · rw [hrest]
      simp [dropBlank, hc]
  rw [trim, hstart, hend]

/-! ## Texts and their words -/

def IsWord (word : List Char) : Prop := word ≠ [] ∧ ∀ c ∈ word, isBlank c = false

instance (word : List Char) : Decidable (IsWord word) :=
  decidable_of_iff (word ≠ [] ∧ word.all (!isBlank ·) = true) (by simp [IsWord])

/-- A text is made of these words and of blanks around them. No word is longer than it is taken:
what follows it is a blank or the end. -/
inductive Spaced : List Char → List (List Char) → Prop
  | blank {blanks : List Char} (h : ∀ c ∈ blanks, isBlank c = true) : Spaced blanks []
  | word {blanks word rest : List Char} {later : List (List Char)}
      (hblanks : ∀ c ∈ blanks, isBlank c = true) (hword : IsWord word)
      (hend : ∀ c ∈ rest.head?, isBlank c = true) (hrest : Spaced rest later) :
      Spaced (blanks ++ (word ++ rest)) (word :: later)

/-- A word at the start of a text. -/
theorem Spaced.start {word rest : List Char} {later : List (List Char)} (hword : IsWord word)
    (hend : ∀ c ∈ rest.head?, isBlank c = true) (hrest : Spaced rest later) :
    Spaced (word ++ rest) (word :: later) :=
  .word (List.forall_mem_nil _) hword hend hrest

theorem Spaced.alone {word : List Char} (hword : IsWord word) : Spaced word [word] := by
  have hnone : Spaced [] [] := .blank (List.forall_mem_nil _)
  simpa using Spaced.start hword (by simp) hnone

theorem Spaced.cons {text : List Char} {found : List (List Char)} (h : Spaced text found)
    {c : Char} (hc : isBlank c = true) : Spaced (c :: text) found := by
  cases h with
  | blank h => exact .blank (List.forall_mem_cons.mpr ⟨hc, h⟩)
  | word hblanks hword hend hrest =>
    exact .word (List.forall_mem_cons.mpr ⟨hc, hblanks⟩) hword hend hrest

theorem Spaced.isWord {text : List Char} {found : List (List Char)} (h : Spaced text found) :
    ∀ word ∈ found, IsWord word := by
  induction h with
  | blank _ => exact List.forall_mem_nil _
  | word _ hword _ _ ih => exact List.forall_mem_cons.mpr ⟨hword, ih⟩

/-- Reading on in a word finds the words of the text with this word put back. -/
theorem spaced_wordsFrom (word : List Char) (hword : ∀ c ∈ word, isBlank c = false)
    (text : List Char) : Spaced (word.reverse ++ text) (wordsFrom word text) := by
  have hreverse : ∀ {word : List Char}, word ≠ [] → (∀ c ∈ word, isBlank c = false) →
      IsWord word.reverse := by
    intro word hne hword
    exact ⟨by simpa using hne, fun c hc => hword c (List.mem_reverse.mp hc)⟩
  -- On the text. The word that is being read goes along, and a blank or the end closes it.
  induction text generalizing word with
  | nil =>
    by_cases hne : word = []
    · subst hne
      exact .blank (List.forall_mem_nil _)
    · simpa [wordsFrom, hne] using Spaced.alone (hreverse hne hword)
  | cons c rest ih =>
    by_cases hc : isBlank c = true
    · have hrest : Spaced (c :: rest) (wordsFrom [] rest) :=
        (ih [] (List.forall_mem_nil _)).cons hc
      by_cases hne : word = []
      · subst hne
        simpa [wordsFrom, hc] using hrest
      · have hspaced := Spaced.start (hreverse hne hword) (by simpa using hc) hrest
        simpa [wordsFrom, hc, hne] using hspaced
    · have hmore : ∀ d ∈ c :: word, isBlank d = false :=
        List.forall_mem_cons.mpr ⟨by simpa using hc, hword⟩
      simpa [wordsFrom, hc] using ih (c :: word) hmore

theorem words_append_of_blank {blanks : List Char} (h : ∀ c ∈ blanks, isBlank c = true)
    (text : List Char) : words (blanks ++ text) = words text := by
  induction blanks with
  | nil => rfl
  | cons c rest ih =>
    rw [List.cons_append, words_cons_of_blank (h c List.mem_cons_self)]
    exact ih fun b hb => h b (List.mem_cons_of_mem _ hb)

/-- Characters that are not blank belong to the word that is being read. -/
theorem wordsFrom_append {more : List Char} (h : ∀ c ∈ more, isBlank c = false)
    (word text : List Char) :
    wordsFrom word (more ++ text) = wordsFrom (more.reverse ++ word) text := by
  induction more generalizing word with
  | nil => rfl
  | cons c rest ih =>
    have hc : isBlank c = false := h c List.mem_cons_self
    have hrest := ih (fun b hb => h b (List.mem_cons_of_mem _ hb)) (c :: word)
    simpa [wordsFrom, hc] using hrest

/-- A word ends at the first blank, and at the end of the text. -/
theorem wordsFrom_of_head {word : List Char} (hword : word ≠ []) {text : List Char}
    (hend : ∀ c ∈ text.head?, isBlank c = true) :
    wordsFrom word text = word.reverse :: words text := by
  cases text with
  | nil => simp [words, wordsFrom, hword]
  | cons c rest =>
    have hc : isBlank c = true := hend c rfl
    simp [words, wordsFrom, hword, hc]

/-- A blank parts the words before it from those behind it. -/
theorem words_append_cons {c : Char} (hc : isBlank c = true) (first rest : List Char) :
    words (first ++ c :: rest) = words first ++ words rest := by
  have hfrom : ∀ word,
      wordsFrom word (first ++ c :: rest) = wordsFrom word first ++ words rest := by
    induction first with
    | nil =>
      intro word
      by_cases hword : word.isEmpty = true <;> simp [wordsFrom, hc, hword, words]
    | cons d first ih =>
      intro word
      rw [List.cons_append, wordsFrom, wordsFrom]
      split_ifs <;> simp [ih]
  exact hfrom []

/-- The words of a text are the only ones of which it is made. -/
theorem words_eq_iff {text : List Char} {found : List (List Char)} :
    words text = found ↔ Spaced text found := by
  constructor
  · rintro rfl
    exact spaced_wordsFrom [] (List.forall_mem_nil _) text
  · intro h
    induction h with
    | blank h => exact wordsFrom_blanks h []
    | @word blanks word rest later hblanks hword hend _ ih =>
      rw [words_append_of_blank hblanks, words, wordsFrom_append hword.2, List.append_nil,
        wordsFrom_of_head (by simpa using hword.1) hend, List.reverse_reverse, ih]

/-- Words with one blank between them. -/
theorem spaced_intercalate {found : List (List Char)} (h : ∀ word ∈ found, IsWord word)
    {c : Char} (hc : isBlank c = true) : Spaced ([c].intercalate found) found := by
  induction found with
  | nil => exact .blank (List.forall_mem_nil _)
  | cons word later ih =>
    have hword := h word List.mem_cons_self
    have hlater := ih fun other hother => h other (List.mem_cons_of_mem _ hother)
    cases later with
    | nil => simpa using Spaced.alone hword
    | cons other more =>
      have hspaced := Spaced.start hword (by simpa using hc) (hlater.cons hc)
      simpa [List.intercalate] using hspaced

end DataLayout.Text
