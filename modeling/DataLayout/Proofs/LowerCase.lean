-- The laws of lower case. The letters of ASCII have the lower-case forms of ASCII, wherever
-- they stand. A letter of another script never gets lost: a text that is lowered to letters of
-- ASCII, but to no `k`, was in ASCII before.
import DataLayout.Text.LowerCase

namespace DataLayout.Text

/-! ## ASCII -/

theorem lowerAlone_of_ascii {c : Char} (hc : c.toNat < 128) : lowerAlone c = [c.toLower] := by
  -- One look-up in the table of all scripts for each of the 128 codes.
  have hall : ∀ code < 128, lowerAlone (Char.ofNat code) = [(Char.ofNat code).toLower] := by
    decide +kernel
  have h := hall c.toNat hc
  rwa [Char.ofNat_toNat] at h

theorem lowerFrom_of_ascii {text : List Char} (h : ∀ c ∈ text, c.toNat < 128)
    (before : List Char) : lowerFrom before text = text.map Char.toLower := by
  induction text generalizing before with
  | nil => rfl
  | cons c rest ih =>
    have hc : c.toNat < 128 := h c List.mem_cons_self
    have hsigma : c ≠ 'Σ' := by
      rintro rfl
      exact absurd hc (by decide)
    rw [lowerFrom, if_neg hsigma, lowerAlone_of_ascii hc,
      ih (fun d hd => h d (List.mem_cons_of_mem _ hd))]
    rfl

/-- A text in ASCII is lowered letter by letter. -/
theorem lower_of_ascii {text : List Char} (h : ∀ c ∈ text, c.toNat < 128) :
    lower text = text.map Char.toLower :=
  lowerFrom_of_ascii h []

theorem ascii_of_toLower {c : Char} (h : c.toLower.toNat < 128) : c.toNat < 128 := by
  unfold Char.toLower at h
  split at h
  · rename_i hupper
    have hz : c.toNat ≤ 'Z'.toNat := hupper.2
    exact Nat.lt_of_le_of_lt hz (by decide)
  · exact h

/-- A word of ASCII in any mix of capitals and small letters is lowered to this word. -/
theorem lower_of_spelling {text word : List Char} (hword : ∀ c ∈ word, c.toNat < 128)
    (h : text.map Char.toLower = word) : lower text = word := by
  subst h
  exact lower_of_ascii fun c hc => ascii_of_toLower (hword _ (List.mem_map_of_mem hc))

/-! ## Outside of ASCII -/

theorem toNat_ofNat_of_isValidChar {code : Nat} (h : code.isValidChar) :
    (Char.ofNat code).toNat = code := by
  rw [Char.ofNat, dif_pos h]
  rfl

/-- All letters of a run have lower-case forms that are characters outside of ASCII. -/
def CaseRun.LeadsOut (r : CaseRun) : Prop :=
  128 ≤ r.first + r.shift ∧
    (r.last + r.shift < 0xd800 ∨ 0xdfff < r.first + r.shift ∧ r.last + r.shift < 0x110000)

instance (r : CaseRun) : Decidable r.LeadsOut := inferInstanceAs (Decidable (_ ∧ _))

/-- Only the capitals of ASCII and the Kelvin sign, which is lowered to `k`, lead into ASCII. -/
theorem caseRuns_cases : ∀ r ∈ caseRuns,
    r.last < 128 ∨ r = ⟨0x212a, 0x212a, 1, -8383⟩ ∨ r.LeadsOut := by
  decide +kernel

theorem CaseRun.LeadsOut.not_ascii {r : CaseRun} (h : r.LeadsOut) {code : Nat}
    (hcode : r.holds code = true) : 128 ≤ (Char.ofNat (code + r.shift).toNat).toNat := by
  simp only [CaseRun.holds, Bool.and_eq_true, decide_eq_true_eq] at hcode
  obtain ⟨hout, hvalid⟩ := h
  have hchar : (code + r.shift).toNat.isValidChar := by
    rcases hvalid with hlow | ⟨hhigh, hlast⟩
    · exact Or.inl (by omega)
    · exact Or.inr ⟨by omega, by omega⟩
  rw [toNat_ofNat_of_isValidChar hchar]
  omega

/-- The lower-case form of a character outside of ASCII shows where it comes from. -/
theorem exists_mem_lowerAlone {c : Char} (hc : 128 ≤ c.toNat) :
    ∃ d ∈ lowerAlone c, 128 ≤ d.toNat ∨ d = 'k' := by
  unfold lowerAlone
  by_cases hdotted : c = 'İ'
  · rw [if_pos hdotted]
    exact ⟨'\u0307', by decide, Or.inl (by decide)⟩
  · rw [if_neg hdotted]
    cases hfind : caseRuns.find? (·.holds c.toNat) with
    | none => exact ⟨c, List.mem_singleton_self c, Or.inl hc⟩
    | some r =>
      have hholds : r.holds c.toNat = true := by simpa using List.find?_some hfind
      refine ⟨_, List.mem_singleton_self _, ?_⟩
      have hrange : r.first ≤ c.toNat ∧ c.toNat ≤ r.last := by
        simp only [CaseRun.holds, Bool.and_eq_true, decide_eq_true_eq] at hholds
        exact hholds.1
      rcases caseRuns_cases r (List.mem_of_find?_eq_some hfind) with hascii | rfl | hout
      · omega
      · have hcode : c.toNat = 0x212a := Nat.le_antisymm hrange.2 hrange.1
        rw [hcode]
        exact Or.inr (by decide)
      · exact Or.inl (hout.not_ascii hholds)

/-- A lowered text shows each character outside of ASCII that it comes from. -/
theorem exists_mem_lowerFrom {text : List Char} {c : Char} (hmem : c ∈ text)
    (hc : 128 ≤ c.toNat) (before : List Char) :
    ∃ d ∈ lowerFrom before text, 128 ≤ d.toNat ∨ d = 'k' := by
  induction text generalizing before with
  | nil => cases hmem
  | cons first rest ih =>
    rw [lowerFrom]
    rcases List.mem_cons.mp hmem with rfl | hrest
    · by_cases hsigma : c = 'Σ'
      · -- Both forms of the sigma are outside of ASCII, so its neighbours do not matter.
        rw [if_pos hsigma]
        refine ⟨_, List.mem_append_left _ (List.mem_singleton_self _), Or.inl ?_⟩
        split <;> decide
      · obtain ⟨d, hd, hout⟩ := exists_mem_lowerAlone hc
        rw [if_neg hsigma]
        exact ⟨d, List.mem_append_left _ hd, hout⟩
    · obtain ⟨d, hd, hout⟩ := ih hrest (first :: before)
      exact ⟨d, List.mem_append_right _ hd, hout⟩

/-- A word of ASCII without a `k` is the lower-case form of its own spellings only, and no letter of
another script is in them. -/
theorem lower_eq_iff {text word : List Char} (hword : ∀ c ∈ word, c.toNat < 128)
    (hk : 'k' ∉ word) : lower text = word ↔ text.map Char.toLower = word := by
  refine ⟨?_, lower_of_spelling hword⟩
  rintro rfl
  refine (lower_of_ascii fun c hmem => ?_).symm
  rcases Nat.lt_or_ge c.toNat 128 with hascii | hout
  · exact hascii
  · obtain ⟨d, hd, hshown | rfl⟩ := exists_mem_lowerFrom hmem hout []
    · exact absurd (hword d hd) (Nat.not_lt.mpr hshown)
    · exact absurd hd hk

/-- The `k` is left out for a reason: the Kelvin sign looks like its capital. -/
example : lower ['\u212a'] = ['k'] ∧ ['\u212a'].map Char.toLower ≠ ['k'] := by decide +kernel

end DataLayout.Text
