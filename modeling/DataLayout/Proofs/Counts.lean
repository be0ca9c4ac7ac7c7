-- The laws of counts. What may be written as a count is said without reading it from left to
-- right: all its characters are digits, but for single underscores inside of it. Every other word
-- is refused as it is.
import DataLayout.Proofs.Numeral

namespace DataLayout

namespace Text

/-! ## Spellings -/

/-- The underscores of a text are single ones, and none is at an end. -/
structure Separated (text : List Char) : Prop where
  head_ne : text.head? ≠ some '_'
  last_ne : text.getLast? ≠ some '_'
  single : text.IsChain fun a b => a ≠ '_' ∨ b ≠ '_'

/-- A text spells some digits. All its characters are digits of any script, but for single
underscores inside of it. -/
structure Spells (text : List Char) (values : List Nat) : Prop where
  ne_nil : values ≠ []
  values_eq : (text.filter (· ≠ '_')).map digitValue? = values.map some
  separated : Separated text

/-- A word spells a count. It has a sign or none and at most 4300 digits, which are all zeros if the
sign is a minus. -/
def SpellsCount (word : List Char) (values : List Nat) : Prop :=
  ∃ sign text, word = sign ++ text ∧ sign ∈ [[], ['+'], ['-']] ∧ Spells text values ∧
    values.length ≤ 4300 ∧ (sign = ['-'] → ∀ d ∈ values, d = 0)

section

variable {a c : Char} {d : Nat} {text rest : List Char} {values : List Nat}

theorem ne_underscore (hd : digitValue? c = some d) : c ≠ '_' := ne_of_digitValue? hd (by decide)

theorem filter_cons_of_ne (hc : c ≠ '_') :
    (c :: rest).filter (· ≠ '_') = c :: rest.filter (· ≠ '_') :=
  List.filter_cons_of_pos (by simpa using hc)

theorem filter_cons_underscore : ('_' :: rest).filter (· ≠ '_') = rest.filter (· ≠ '_') :=
  List.filter_cons_of_neg (by simp)

theorem separated_singleton (hc : c ≠ '_') : Separated [c] :=
  ⟨by simpa using hc, by simpa using hc, .singleton c⟩

theorem separated_cons_iff (ha : a ≠ '_') :
    Separated (c :: a :: rest) ↔ c ≠ '_' ∧ Separated (a :: rest) := by
  constructor
  · rintro ⟨hhead, hlast, hsingle⟩
    rw [List.getLast?_cons_cons] at hlast
    exact ⟨by simpa using hhead, by simpa using ha, hlast, (List.isChain_cons_cons.mp hsingle).2⟩
  · rintro ⟨hc, _, hlast, hsingle⟩
    exact ⟨by simpa using hc, by rwa [List.getLast?_cons_cons], .cons_cons (Or.inl hc) hsingle⟩

theorem separated_underscore_iff :
    Separated (c :: '_' :: a :: rest) ↔ c ≠ '_' ∧ a ≠ '_' ∧ Separated (a :: rest) := by
  constructor
  · rintro ⟨hhead, hlast, hsingle⟩
    rw [List.getLast?_cons_cons, List.getLast?_cons_cons] at hlast
    obtain ⟨_, hsingle⟩ := List.isChain_cons_cons.mp hsingle
    obtain ⟨hnext, hsingle⟩ := List.isChain_cons_cons.mp hsingle
    have ha : a ≠ '_' := hnext.resolve_left fun h => h rfl
    exact ⟨by simpa using hhead, ha, by simpa using ha, hlast, hsingle⟩
  · rintro ⟨hc, ha, _, hlast, hsingle⟩
    refine ⟨by simpa using hc, ?_, .cons_cons (Or.inl hc) (.cons_cons (Or.inr ha) hsingle)⟩
    rwa [List.getLast?_cons_cons, List.getLast?_cons_cons]

/-! ## Spellings are numerals -/

theorem DigitRun.values_eq (h : DigitRun text values) :
    (text.filter (· ≠ '_')).map digitValue? = values.map some := by
  induction h with
  | nil => rfl
  | digit hd _ ih =>
    rw [filter_cons_of_ne (ne_underscore hd), List.map_cons, List.map_cons, hd, ih]
  | joined hd _ ih =>
    rw [filter_cons_underscore, filter_cons_of_ne (ne_underscore hd), List.map_cons,
      List.map_cons, hd, ih]

/-- Behind a digit, the underscores in a run of digits are apart. -/
theorem DigitRun.separated (h : DigitRun rest values) (hc : c ≠ '_') : Separated (c :: rest) := by
  induction h generalizing c with
  | nil => exact separated_singleton hc
  | digit hd _ ih =>
    have ha := ne_underscore hd
    exact (separated_cons_iff ha).mpr ⟨hc, ih ha⟩
  | joined hd _ ih =>
    have ha := ne_underscore hd
    exact separated_underscore_iff.mpr ⟨hc, ha, ih ha⟩

/-- Digits whose underscores are apart are a run behind a digit. -/
theorem digitRun_of_separated (h : Separated (c :: rest))
    (hvalues : (rest.filter (· ≠ '_')).map digitValue? = values.map some) :
    DigitRun rest values := by
  -- The induction is on the digits. Each one takes an underscore in front of it along.
  induction values generalizing c rest with
  | nil =>
    have hall : ∀ a ∈ rest, a = '_' := by simpa using hvalues
    rcases rest with _ | ⟨a, _ | ⟨b, rest⟩⟩
    · exact .nil
    · obtain rfl := hall a List.mem_cons_self
      exact absurd rfl h.last_ne
    · obtain rfl := hall a List.mem_cons_self
      have hb := hall b (List.mem_cons_of_mem _ List.mem_cons_self)
      exact absurd hb (separated_underscore_iff.mp h).2.1
  | cons d values ih =>
    rcases rest with _ | ⟨a, rest⟩
    · cases hvalues
    by_cases ha : a = '_'
    · subst ha
      rcases rest with _ | ⟨b, rest⟩
      · cases hvalues
      · obtain ⟨_, hb, hrest⟩ := separated_underscore_iff.mp h
        rw [filter_cons_underscore, filter_cons_of_ne hb] at hvalues
        obtain ⟨hd, hvalues⟩ := List.cons.inj hvalues
        exact .joined hd (ih hrest hvalues)
    · rw [filter_cons_of_ne ha] at hvalues
      obtain ⟨hd, hvalues⟩ := List.cons.inj hvalues
      exact .digit hd (ih ((separated_cons_iff ha).mp h).2 hvalues)

/-- The texts that spell digits are the numerals. -/
theorem spells_iff_numeral : Spells text values ↔ Numeral text values := by
  constructor
  · rintro ⟨hne, hvalues, hseparated⟩
    rcases text with _ | ⟨c, rest⟩
    · exact absurd (List.map_eq_nil_iff.mp hvalues.symm) hne
    have hc : c ≠ '_' := by simpa using hseparated.head_ne
    rw [filter_cons_of_ne hc] at hvalues
    rcases values with _ | ⟨d, values⟩
    · cases hvalues
    · obtain ⟨hd, hvalues⟩ := List.cons.inj hvalues
      exact .mk hd (digitRun_of_separated hseparated hvalues)
  · rintro ⟨hd, hrun⟩
    exact ⟨List.cons_ne_nil _ _, (DigitRun.digit hd hrun).values_eq,
      hrun.separated (ne_underscore hd)⟩

theorem denotes_iff_spellsCount {word : List Char} {n : Int} :
    Denotes word n ↔ ∃ values, SpellsCount word values ∧ n = ofDecimals values := by
  constructor
  · intro h
    cases h with
    | @plain _ values h hlength =>
      exact ⟨values, ⟨[], word, rfl, by simp, spells_iff_numeral.mpr h, hlength, by simp⟩, rfl⟩
    | @plus text values h hlength =>
      exact ⟨values, ⟨['+'], text, rfl, by simp, spells_iff_numeral.mpr h, hlength, by simp⟩, rfl⟩
    | @minus text values h hlength hzero =>
      refine ⟨values, ⟨['-'], text, rfl, by simp, spells_iff_numeral.mpr h, hlength, ?_⟩, ?_⟩
      · exact fun _ => hzero
      · rw [ofDecimals_eq_zero_iff.mpr hzero]
        rfl
  · rintro ⟨values, ⟨sign, text, rfl, hsign, hspells, hlength, hzero⟩, rfl⟩
    have h := spells_iff_numeral.mp hspells
    simp only [List.mem_cons, List.not_mem_nil, or_false] at hsign
    rcases hsign with rfl | rfl | rfl
    · exact .plain h hlength
    · exact .plus h hlength
    · rw [ofDecimals_eq_zero_iff.mpr (hzero rfl)]
      exact .minus h hlength (hzero rfl)

/-! ## Leading zeros -/

theorem ofDecimals_leadingZeros (zeros : Nat) (values : List Nat) :
    ofDecimals (List.replicate zeros 0 ++ values) = ofDecimals values := by
  induction zeros with
  | zero => rfl
  | succ zeros ih => rw [List.replicate_succ, List.cons_append, ofDecimals_cons, ih]; omega

/-- The digits of a number with zeros in front of them spell it, wherever single underscores are
put in. -/
theorem spells_of_digits {n zeros : Nat}
    (hdigits : text.filter (· ≠ '_') = List.replicate zeros '0' ++ digits n)
    (hseparated : Separated text) : ∃ values, Spells text values ∧
      values.length = zeros + (digits n).length ∧ ofDecimals values = n := by
  obtain ⟨values, hnumeral, hlength, hvalue⟩ := numeral_digits n
  obtain ⟨hne, hvalues, _⟩ := spells_iff_numeral.mpr hnumeral
  have hplain : (digits n).filter (· ≠ '_') = digits n := by
    refine List.filter_eq_self.mpr fun c hc => ?_
    have hmem : c ∈ text.filter (· ≠ '_') := hdigits ▸ List.mem_append_right _ hc
    exact (List.mem_filter.mp hmem).2
  rw [hplain] at hvalues
  refine ⟨List.replicate zeros 0 ++ values, ⟨by simp [hne], ?_, hseparated⟩, by simp [hlength], ?_⟩
  · have hzero : digitValue? '0' = some 0 := by decide
    rw [hdigits, List.map_append, List.map_append, hvalues, List.map_replicate,
      List.map_replicate, hzero]
  · rw [ofDecimals_leadingZeros, hvalue]

end

end Text

/-! ## The law -/

open Text

/-- The counts are the words that spell one. A word is read as a number exactly when it has digits
of any scripts, at most 4300 of them, with single underscores inside of them and a sign in front or
none, and no minus unless all digits are zeros. The number is the base-ten value of the digits.
Every other word is refused, with the word as it is. So every number whose digits keep the limit is
read back from them, with zeros or a plus in front and with single underscores inside. -/
theorem the_counts_are_the_words_that_spell_one :
    (∀ token : String, IsWord token.toList →
      (∀ n, Command.count token = .ok n ↔
        ∃ values, SpellsCount token.toList values ∧ n = ofDecimals values) ∧
      ((∀ values, ¬ SpellsCount token.toList values) →
        Command.count token = .error ⟨.invalidArgument, some token⟩)) ∧
    ∀ (n zeros : Nat) (sign text : List Char), sign ∈ [[], ['+']] →
      text.filter (· ≠ '_') = List.replicate zeros '0' ++ digits n → Separated text →
        zeros + (digits n).length ≤ 4300 →
          Command.count (String.ofList (sign ++ text)) = .ok (n : Int) := by
  refine ⟨fun token _ => ⟨fun n => ?_, fun hnone => ?_⟩, ?_⟩
  · rw [Command.count_eq_ok_iff, denotes_iff_spellsCount]
  · refine Command.count_eq_error_iff.mpr ⟨rfl, fun n hn => ?_⟩
    obtain ⟨values, hspells, _⟩ := denotes_iff_spellsCount.mp hn
    exact hnone values hspells
  · intro n zeros sign text hsign hdigits hseparated hlength
    obtain ⟨values, hspells, hcount, rfl⟩ := spells_of_digits hdigits hseparated
    rw [Command.count_eq_ok_iff, String.toList_ofList, denotes_iff_spellsCount]
    refine ⟨values, ⟨sign, text, rfl, ?_, hspells, by omega, ?_⟩, rfl⟩
    · simp only [List.mem_cons, List.not_mem_nil, or_false] at hsign ⊢
      exact hsign.imp_right Or.inl
    · rintro rfl
      simp at hsign

/-- An Arabic three and a zero are thirty, two zeros may have a minus, two underscores may not
stand together, and seven is read with zeros in front. -/
theorem thirty_is_read_in_mixed_digits :
    Command.count "+\u0663_0" = .ok 30 ∧ Command.count "-0_0" = .ok 0 ∧
      Command.count "1__0" = .error ⟨.invalidArgument, some "1__0"⟩ ∧
      Command.count "+0_07" = .ok 7 := by
  obtain ⟨hwords, hwritten⟩ := the_counts_are_the_words_that_spell_one
  refine ⟨?_, ?_, ?_, ?_⟩
  · refine ((hwords "+\u0663_0" (by decide)).1 30).mpr ⟨[3, 0], ?_, rfl⟩
    exact ⟨['+'], ['\u0663', '_', '0'], rfl, by decide,
      ⟨by decide, by decide, by decide, by decide, by decide⟩, by decide, by decide⟩
  · refine ((hwords "-0_0" (by decide)).1 0).mpr ⟨[0, 0], ?_, rfl⟩
    exact ⟨['-'], ['0', '_', '0'], rfl, by decide,
      ⟨by decide, by decide, by decide, by decide, by decide⟩, by decide, by decide⟩
  · refine (hwords "1__0" (by decide)).2 fun values ⟨sign, text, heq, hsign, hspells, _⟩ => ?_
    have hword : "1__0".toList = ['1', '_', '_', '0'] := rfl
    rw [hword] at heq
    simp only [List.mem_cons, List.not_mem_nil, or_false] at hsign
    rcases hsign with rfl | rfl | rfl
    · rw [List.nil_append] at heq
      exact absurd (heq ▸ hspells.separated.single) (by decide)
    · cases heq
    · cases heq
  · exact hwritten 7 2 ['+'] ['0', '_', '0', '7'] (by decide) (by decide)
      ⟨by decide, by decide, by decide⟩ (by decide)

end DataLayout
