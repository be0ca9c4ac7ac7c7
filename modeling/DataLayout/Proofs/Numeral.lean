-- The laws of numerals. A token is a count exactly when it is a numeral: digits of any script,
-- single underscores between them and a sign in front. The count is the base-ten value of the
-- digits, and every count that can be written is read back from what is written.
import Mathlib.Data.Nat.Digits.Defs
import Mathlib.Tactic.SplitIfs
import DataLayout.Command
import DataLayout.Proofs.Blank

namespace DataLayout

namespace Text

/-! ## Numerals -/

/-- Digits of any script, each with at most one underscore in front of it, and their values. This
is what may stand behind a digit. -/
inductive DigitRun : List Char → List Nat → Prop
  | nil : DigitRun [] []
  | digit {c : Char} {d : Nat} {rest : List Char} {values : List Nat}
      (hd : digitValue? c = some d) (hrest : DigitRun rest values) :
      DigitRun (c :: rest) (d :: values)
  | joined {c : Char} {d : Nat} {rest : List Char} {values : List Nat}
      (hd : digitValue? c = some d) (hrest : DigitRun rest values) :
      DigitRun ('_' :: c :: rest) (d :: values)

/-- An unsigned numeral and the values of its digits: a digit, and a run of digits behind it. -/
inductive Numeral : List Char → List Nat → Prop
  | mk {c : Char} {d : Nat} {rest : List Char} {values : List Nat}
      (hd : digitValue? c = some d) (hrest : DigitRun rest values) :
      Numeral (c :: rest) (d :: values)

/-- The number of which these are the decimal digits, the highest one first. -/
def ofDecimals (values : List Nat) : Nat := Nat.ofDigits 10 values.reverse

theorem ofDecimals_cons (d : Nat) (values : List Nat) :
    ofDecimals (d :: values) = d * 10 ^ values.length + ofDecimals values := by
  simp only [ofDecimals, List.reverse_cons, Nat.ofDigits_append, Nat.ofDigits_singleton,
    List.length_reverse, Nat.mul_comm d]
  omega

theorem ofDecimals_concat (values : List Nat) (d : Nat) :
    ofDecimals (values ++ [d]) = 10 * ofDecimals values + d := by
  simp only [ofDecimals, List.reverse_append, List.reverse_singleton, List.singleton_append,
    Nat.ofDigits_cons]
  omega

/-- One digit more is read: the value so far moves up by one place. -/
theorem ofDecimals_next (value d : Nat) (values : List Nat) :
    (10 * value + d) * 10 ^ values.length + ofDecimals values =
      value * 10 ^ (d :: values).length + ofDecimals (d :: values) := by
  rw [ofDecimals_cons, List.length_cons]
  ring

theorem ofDecimals_eq_zero_iff {values : List Nat} :
    ofDecimals values = 0 ↔ ∀ d ∈ values, d = 0 := by
  induction values with
  | nil => simp [ofDecimals]
  | cons d rest ih => simp [ofDecimals_cons, ih]

/-! ## Numerals are what is read -/

theorem ne_of_digitValue? {c other : Char} {d : Nat} (h : digitValue? c = some d)
    (hother : digitValue? other = none) : c ≠ other := by
  rintro rfl
  rw [h] at hother
  cases hother

theorem digitsAfter_digit {c : Char} {d : Nat} (hd : digitValue? c = some d)
    (value count : Nat) (rest : List Char) :
    digitsAfter value count (c :: rest) = digitsAfter (10 * value + d) (count + 1) rest := by
  have hne : c ≠ '_' := ne_of_digitValue? hd (by decide)
  rw [digitsAfter.eq_def]
  split
  · rename_i heq
    cases heq
  · rename_i heq
    cases heq
    exact absurd rfl hne
  · rename_i heq
    cases heq
    rw [hd]

theorem digitsAfter_joined {c : Char} {d : Nat} (hd : digitValue? c = some d)
    (value count : Nat) (rest : List Char) :
    digitsAfter value count ('_' :: c :: rest) =
      digitsAfter (10 * value + d) (count + 1) rest := by
  rw [digitsAfter, hd]

/-- Reading on behind a digit reads exactly a run of digits. -/
theorem digitsAfter_eq_some_iff {value count : Nat} {text : List Char} {n total : Nat} :
    digitsAfter value count text = some (n, total) ↔ ∃ values, DigitRun text values ∧
      n = value * 10 ^ values.length + ofDecimals values ∧ total = count + values.length := by
  have hcount : ∀ (count d : Nat) (values : List Nat),
      count + 1 + values.length = count + (d :: values).length := fun count d values => by
    rw [List.length_cons]
    omega
  constructor
  · intro h
    fun_induction digitsAfter value count text with
    | case1 value count =>
      cases h
      exact ⟨[], .nil, by simp [ofDecimals], rfl⟩
    | case2 value count c rest d hd ih =>
      obtain ⟨values, hrun, rfl, rfl⟩ := ih h
      exact ⟨d :: values, .joined hd hrun, ofDecimals_next value d values, hcount count d values⟩
    | case3 => cases h
    | case4 value count c rest _ d hd ih =>
      obtain ⟨values, hrun, rfl, rfl⟩ := ih h
      exact ⟨d :: values, .digit hd hrun, ofDecimals_next value d values, hcount count d values⟩
    | case5 => cases h
  · rintro ⟨values, hrun, rfl, rfl⟩
    induction hrun generalizing value count with
    | nil => simp [digitsAfter, ofDecimals]
    | @digit c d rest values hd _ ih =>
      rw [digitsAfter_digit hd, ih, ofDecimals_next, hcount count d]
    | @joined c d rest values hd _ ih =>
      rw [digitsAfter_joined hd, ih, ofDecimals_next, hcount count d]

theorem unsigned?_eq_some_iff {text : List Char} {n count : Nat} :
    unsigned? text = some (n, count) ↔
      ∃ values, Numeral text values ∧ n = ofDecimals values ∧ count = values.length := by
  have hfirst : ∀ {c : Char} {d : Nat}, digitValue? c = some d → ∀ rest,
      unsigned? (c :: rest) = digitsAfter d 1 rest := fun hd rest => by
    rw [unsigned?, hd]
  constructor
  · intro h
    cases text with
    | nil => cases h
    | cons c rest =>
      cases hd : digitValue? c with
      | none =>
        rw [unsigned?, hd] at h
        cases h
      | some d =>
        rw [hfirst hd, digitsAfter_eq_some_iff] at h
        obtain ⟨values, hrun, rfl, rfl⟩ := h
        refine ⟨d :: values, .mk hd hrun, (ofDecimals_cons d values).symm, ?_⟩
        rw [List.length_cons, Nat.add_comm]
  · rintro ⟨values, hnumeral, rfl, rfl⟩
    cases hnumeral with
    | @mk c d rest values hd hrun =>
      rw [hfirst hd, digitsAfter_eq_some_iff]
      exact ⟨values, hrun, ofDecimals_cons d values, by rw [List.length_cons, Nat.add_comm]⟩

theorem unsignedWithin?_eq_some_iff {limit : DigitLimit} {text : List Char} {n : Nat} :
    unsignedWithin? limit text = some n ↔
      ∃ values, Numeral text values ∧ limit.admits values.length = true ∧
        n = ofDecimals values := by
  unfold unsignedWithin?
  constructor
  · intro h
    split at h
    · rename_i value count hread
      obtain ⟨values, hnumeral, rfl, rfl⟩ := unsigned?_eq_some_iff.mp hread
      split_ifs at h with hadmits
      cases h
      exact ⟨values, hnumeral, hadmits, rfl⟩
    · cases h
  · rintro ⟨values, hnumeral, hadmits, rfl⟩
    rw [unsigned?_eq_some_iff.mpr ⟨values, hnumeral, rfl, rfl⟩]
    exact if_pos hadmits

section

variable (limit : DigitLimit)

theorem integer?_minus (rest : List Char) :
    integer? limit ('-' :: rest) = (unsignedWithin? limit rest).map fun n : Nat => -(n : Int) := by
  rw [integer?]
  cases unsignedWithin? limit rest <;> rfl

theorem integer?_plus (rest : List Char) :
    integer? limit ('+' :: rest) = (unsignedWithin? limit rest).map fun n : Nat => (n : Int) := by
  rw [integer?]
  cases unsignedWithin? limit rest <;> rfl

theorem integer?_of_unsigned {text : List Char} (hminus : ∀ rest, text ≠ '-' :: rest)
    (hplus : ∀ rest, text ≠ '+' :: rest) :
    integer? limit text = (unsignedWithin? limit text).map fun n : Nat => (n : Int) := by
  rw [integer?.eq_3 limit text hminus hplus]
  cases unsignedWithin? limit text <;> rfl

end

/-! ## Written numbers -/

/-- A run of digits goes on with one more. -/
theorem DigitRun.concat {text : List Char} {values : List Nat} (h : DigitRun text values)
    {c : Char} {d : Nat} (hd : digitValue? c = some d) :
    DigitRun (text ++ [c]) (values ++ [d]) := by
  induction h with
  | nil => exact .digit hd .nil
  | digit hfirst _ ih => exact .digit hfirst ih
  | joined hfirst _ ih => exact .joined hfirst ih

theorem Numeral.concat {text : List Char} {values : List Nat} (h : Numeral text values)
    {c : Char} {d : Nat} (hd : digitValue? c = some d) :
    Numeral (text ++ [c]) (values ++ [d]) := by
  cases h with
  | mk hfirst hrun => exact .mk hfirst (hrun.concat hd)

theorem digitValue?_digitChar {d : Nat} (h : d < 10) : digitValue? (Nat.digitChar d) = some d := by
  have hall : ∀ d < 10, digitValue? (Nat.digitChar d) = some d := by decide
  exact hall d h

/-- The digits of a number are a numeral of this number. -/
theorem numeral_digits (n : Nat) :
    ∃ values, Numeral (digits n) values ∧ values.length = (digits n).length ∧
      ofDecimals values = n := by
  unfold digits
  induction n using Nat.strong_induction_on with
  | _ n ih =>
    by_cases hsmall : n < 10
    · rw [Nat.toDigits_of_lt_base hsmall]
      exact ⟨[n], .mk (digitValue?_digitChar hsmall) .nil, rfl, by simp [ofDecimals]⟩
    · obtain ⟨values, hnumeral, hlength, hvalue⟩ := ih (n / 10) (by omega)
      rw [Nat.toDigits_of_base_le (by decide) (by omega)]
      refine ⟨values ++ [n % 10], hnumeral.concat (digitValue?_digitChar (by omega)), ?_, ?_⟩
      · rw [List.length_append, List.length_append, hlength]
        rfl
      · rw [ofDecimals_concat, hvalue]
        omega

/-! ## The length of numbers -/

theorem lt_length_digits_of_le {most n : Nat} (hmost : 0 < most) (h : 10 ^ most ≤ n) :
    most < (digits n).length := by
  refine Nat.lt_of_not_le fun hlength => ?_
  have hlt := (Nat.length_toDigits_le_iff (by decide) hmost).mp hlength
  omega

theorem digitValue?_lt {c : Char} {d : Nat} (h : digitValue? c = some d) : d < 10 := by
  unfold digitValue? at h
  obtain ⟨first, hfirst, rfl⟩ := Option.map_eq_some_iff.mp h
  have := List.find?_some hfirst
  simp only [Bool.and_eq_true, decide_eq_true_eq] at this
  omega

theorem DigitRun.lt {text : List Char} {values : List Nat} (h : DigitRun text values) :
    ∀ d ∈ values, d < 10 := by
  induction h with
  | nil => exact List.forall_mem_nil _
  | digit hd _ ih => exact List.forall_mem_cons.mpr ⟨digitValue?_lt hd, ih⟩
  | joined hd _ ih => exact List.forall_mem_cons.mpr ⟨digitValue?_lt hd, ih⟩

/-- A number has at most as many digits as its numeral. -/
theorem Numeral.length_digits_le {text : List Char} {values : List Nat} (h : Numeral text values) :
    (digits (ofDecimals values)).length ≤ values.length := by
  cases h with
  | @mk c d rest values hd hrun =>
    have hlt : ∀ e ∈ d :: values, e < 10 := List.forall_mem_cons.mpr ⟨digitValue?_lt hd, hrun.lt⟩
    have hbound := Nat.ofDigits_lt_base_pow_length (by decide)
      fun e he => hlt e (List.mem_reverse.mp he)
    rw [List.length_reverse] at hbound
    exact (Nat.length_toDigits_le_iff (by decide) (Nat.succ_pos _)).mpr hbound

/-! ## Counts -/

/-- A token denotes a count. It is a numeral of at most 4300 digits, leading zeros included, with
or without a plus sign, or one behind a minus sign with no digit but zeros. -/
inductive Denotes : List Char → Int → Prop
  | plain {text : List Char} {values : List Nat} (h : Numeral text values)
      (hlength : values.length ≤ 4300) : Denotes text (ofDecimals values)
  | plus {text : List Char} {values : List Nat} (h : Numeral text values)
      (hlength : values.length ≤ 4300) : Denotes ('+' :: text) (ofDecimals values)
  | minus {text : List Char} {values : List Nat} (h : Numeral text values)
      (hlength : values.length ≤ 4300) (hzero : ∀ d ∈ values, d = 0) : Denotes ('-' :: text) 0

/-- A number that can be written within the limit is denoted by what is written. -/
theorem denotes_numeral {n : Int} (hn : 0 ≤ n) (hlength : (digits n.natAbs).length ≤ 4300) :
    Denotes (numeral n) n := by
  obtain ⟨values, hnumeral, hsame, hvalue⟩ := numeral_digits n.natAbs
  have hdenotes := Denotes.plain hnumeral (by omega)
  rw [hvalue, Int.natAbs_of_nonneg hn] at hdenotes
  unfold numeral
  rwa [if_neg (by omega)]

theorem unsignedWithin?_standard_iff {text : List Char} {n : Nat} :
    unsignedWithin? .standard text = some n ↔
      ∃ values, Numeral text values ∧ values.length ≤ 4300 ∧ n = ofDecimals values := by
  simp [unsignedWithin?_eq_some_iff, DigitLimit.admits, DigitLimit.standard]

/-- An integer that is read and not negative is a count. -/
theorem denotes_of_integer? {text : List Char} {n : Int} (h : integer? .standard text = some n)
    (hn : 0 ≤ n) : Denotes text n := by
  by_cases hminus : ∃ rest, text = '-' :: rest
  · obtain ⟨rest, rfl⟩ := hminus
    rw [integer?_minus] at h
    obtain ⟨k, hk, rfl⟩ := Option.map_eq_some_iff.mp h
    obtain ⟨values, hnumeral, hlength, rfl⟩ := unsignedWithin?_standard_iff.mp hk
    have hzero : ofDecimals values = 0 := by omega
    rw [hzero]
    exact .minus hnumeral hlength (ofDecimals_eq_zero_iff.mp hzero)
  by_cases hplus : ∃ rest, text = '+' :: rest
  · obtain ⟨rest, rfl⟩ := hplus
    rw [integer?_plus] at h
    obtain ⟨k, hk, rfl⟩ := Option.map_eq_some_iff.mp h
    obtain ⟨values, hnumeral, hlength, rfl⟩ := unsignedWithin?_standard_iff.mp hk
    exact .plus hnumeral hlength
  · rw [integer?_of_unsigned _ (not_exists.mp hminus) (not_exists.mp hplus)] at h
    obtain ⟨k, hk, rfl⟩ := Option.map_eq_some_iff.mp h
    obtain ⟨values, hnumeral, hlength, rfl⟩ := unsignedWithin?_standard_iff.mp hk
    exact .plain hnumeral hlength

theorem Denotes.nonneg {text : List Char} {n : Int} (h : Denotes text n) : 0 ≤ n := by
  cases h <;> omega

/-- A count that is read can be written again. -/
theorem Denotes.writable {text : List Char} {n : Int} (h : Denotes text n) :
    writable .standard n = true := by
  have hshort : ∀ {text : List Char} {values : List Nat}, Numeral text values →
      values.length ≤ 4300 → Text.writable .standard (ofDecimals values : Int) = true := by
    intro text values hnumeral hlength
    simpa [Text.writable, DigitLimit.admits, DigitLimit.standard] using
      hnumeral.length_digits_le.trans hlength
  cases h with
  | plain hnumeral hlength => exact hshort hnumeral hlength
  | plus hnumeral hlength => exact hshort hnumeral hlength
  | minus => decide

/-- A numeral starts with a digit, and not with a sign. -/
theorem Numeral.ne_cons {text : List Char} {values : List Nat} (h : Numeral text values)
    {sign : Char} (hsign : digitValue? sign = none) (rest : List Char) : text ≠ sign :: rest := by
  rintro rfl
  cases h with
  | mk hd _ => exact ne_of_digitValue? hd hsign rfl

theorem integer?_of_denotes {text : List Char} {n : Int} (h : Denotes text n) :
    integer? .standard text = some n := by
  have hread : ∀ {text : List Char} {values : List Nat}, Numeral text values →
      values.length ≤ 4300 → unsignedWithin? .standard text = some (ofDecimals values) :=
    fun hnumeral hlength => unsignedWithin?_standard_iff.mpr ⟨_, hnumeral, hlength, rfl⟩
  cases h with
  | plain hnumeral hlength =>
    rw [integer?_of_unsigned _ (hnumeral.ne_cons (by decide)) (hnumeral.ne_cons (by decide)),
      hread hnumeral hlength]
    rfl
  | plus hnumeral hlength =>
    rw [integer?_plus, hread hnumeral hlength]
    rfl
  | minus hnumeral hlength hzero =>
    rw [integer?_minus, hread hnumeral hlength, ofDecimals_eq_zero_iff.mpr hzero]
    rfl

/-- Without a limit, every integer is read back from its numeral. -/
theorem integer?_numeral (n : Int) : integer? .unlimited (numeral n) = some n := by
  obtain ⟨values, hnumeral, _, hvalue⟩ := numeral_digits n.natAbs
  have hread : unsignedWithin? .unlimited (digits n.natAbs) = some n.natAbs :=
    unsignedWithin?_eq_some_iff.mpr ⟨values, hnumeral, rfl, hvalue.symm⟩
  unfold numeral
  split_ifs with hneg
  · rw [integer?_minus, hread, Option.map_some, Int.ofNat_natAbs_of_nonpos (by omega), Int.neg_neg]
  · rw [integer?_of_unsigned _ (hnumeral.ne_cons (by decide)) (hnumeral.ne_cons (by decide)), hread,
      Option.map_some, Int.natAbs_of_nonneg (by omega)]

theorem numeral_inj {n m : Int} : numeral n = numeral m ↔ n = m := by
  refine ⟨fun h => ?_, congrArg numeral⟩
  have hread := integer?_numeral n
  rw [h, integer?_numeral] at hread
  exact (Option.some.inj hread).symm

/-- An integer is written as usual. -/
theorem ofList_numeral (n : Int) : String.ofList (numeral n) = toString n := by
  rcases n with n | n
  · simp [numeral, digits]
    rfl
  · have hneg : Int.negSucc n < 0 := Int.negSucc_lt_zero n
    rw [numeral, if_pos hneg, String.ofList_cons]
    rfl

/-! ## Numerals are words -/

theorem not_blank_of_digitValue? {c : Char} {d : Nat} (h : digitValue? c = some d) :
    isBlank c = false := by
  -- No run of blanks meets a run of digits in the two tables.
  have hall : ∀ first ∈ zeroCodes, ∀ d < 10, inRuns blankRuns (first + d) = false := by decide
  unfold digitValue? at h
  obtain ⟨first, hfirst, _⟩ := Option.map_eq_some_iff.mp h
  have hrange := List.find?_some hfirst
  simp only [Bool.and_eq_true, decide_eq_true_eq] at hrange
  have hblank := hall first (List.mem_of_find?_eq_some hfirst) (c.toNat - first) (by omega)
  rwa [Nat.add_sub_cancel' hrange.1] at hblank

theorem DigitRun.not_blank {text : List Char} {values : List Nat} (h : DigitRun text values) :
    ∀ c ∈ text, isBlank c = false := by
  induction h with
  | nil => exact fun c hc => by cases hc
  | digit hd _ ih => exact List.forall_mem_cons.mpr ⟨not_blank_of_digitValue? hd, ih⟩
  | joined hd _ ih =>
    exact List.forall_mem_cons.mpr ⟨by decide, List.forall_mem_cons.mpr
      ⟨not_blank_of_digitValue? hd, ih⟩⟩

theorem Numeral.ne_nil {text : List Char} {values : List Nat} (h : Numeral text values) :
    text ≠ [] := by
  rintro rfl
  cases h

theorem Numeral.not_blank {text : List Char} {values : List Nat} (h : Numeral text values) :
    ∀ c ∈ text, isBlank c = false := by
  cases h with
  | mk hd hrun => exact List.forall_mem_cons.mpr ⟨not_blank_of_digitValue? hd, hrun.not_blank⟩

theorem isWord_numeral (n : Int) : IsWord (numeral n) := by
  obtain ⟨values, hnumeral, _⟩ := numeral_digits n.natAbs
  unfold numeral
  split_ifs
  · exact ⟨List.cons_ne_nil _ _, List.forall_mem_cons.mpr ⟨by decide, hnumeral.not_blank⟩⟩
  · exact ⟨hnumeral.ne_nil, hnumeral.not_blank⟩

/-- A text that denotes a count is one word. -/
theorem Denotes.isWord {text : List Char} {n : Int} (h : Denotes text n) : IsWord text := by
  cases h with
  | plain hnumeral _ => exact ⟨hnumeral.ne_nil, hnumeral.not_blank⟩
  | plus hnumeral _ =>
    exact ⟨List.cons_ne_nil _ _, List.forall_mem_cons.mpr ⟨by decide, hnumeral.not_blank⟩⟩
  | minus hnumeral _ _ =>
    exact ⟨List.cons_ne_nil _ _, List.forall_mem_cons.mpr ⟨by decide, hnumeral.not_blank⟩⟩

end Text

namespace Command

open Text

/-- A count is read exactly from the tokens that denote it. -/
theorem count_eq_ok_iff {token : String} {n : Int} :
    count token = .ok n ↔ Denotes token.toList n := by
  unfold count
  constructor
  · intro h
    split at h
    · rename_i m hread
      split_ifs at h with hnegative
      cases h
      exact denotes_of_integer? hread (by omega)
    · cases h
  · intro h
    rw [integer?_of_denotes h]
    exact if_neg (by have := h.nonneg; omega)

/-- Every other token is the argument of the fault. -/
theorem count_eq_error_iff {token : String} {fault : CommandFault} :
    count token = .error fault ↔
      fault = ⟨.invalidArgument, some token⟩ ∧ ∀ n, ¬ Denotes token.toList n := by
  simp only [← count_eq_ok_iff]
  unfold count
  split
  · split_ifs <;> simp [eq_comm]
  · simp [eq_comm]

end Command

end DataLayout
