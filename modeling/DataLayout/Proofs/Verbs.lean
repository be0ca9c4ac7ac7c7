-- The law of verbs. The first word of a line is lowered by the rules of all scripts before it is
-- looked up, but only the spellings in ASCII find a verb. No word with any other letter looks like
-- one.
import DataLayout.Proofs.Grammar

namespace DataLayout

open Text

namespace Command

/-! ## Spellings of a verb -/

/-- A word is a verb up to the case of the letters of ASCII. -/
def SpellsVerb (word verb : String) : Prop := word.toList.map Char.toLower = verb.toList

instance (word verb : String) : Decidable (SpellsVerb word verb) :=
  inferInstanceAs (Decidable (_ = _))

theorem verbs_ascii : ∀ verb ∈ verbs,
    (∀ c ∈ verb.toList, c.toNat < 128) ∧ 'k' ∉ verb.toList := by
  have hall : ∀ verb ∈ verbs,
      verb.toList.all (fun c => decide (c.toNat < 128)) = true ∧ 'k' ∉ verb.toList := by decide
  simpa only [List.all_eq_true, decide_eq_true_eq] using hall

section

variable {first verb : String}

/-- What the full lower case makes a verb is one in ASCII already. -/
theorem lowered_eq_iff (hverb : verb ∈ verbs) : lowered first = verb ↔ SpellsVerb first verb := by
  obtain ⟨hascii, hk⟩ := verbs_ascii verb hverb
  rw [SpellsVerb, ← lower_eq_iff hascii hk, lowered, ← String.toList_inj, String.toList_ofList]

/-- A spelling of a verb has no character outside of ASCII. -/
theorem SpellsVerb.ascii (hverb : verb ∈ verbs) (h : SpellsVerb first verb) :
    ∀ c ∈ first.toList, c.toNat < 128 := by
  intro c hc
  have hmem : c.toLower ∈ verb.toList := h ▸ List.mem_map_of_mem hc
  exact ascii_of_toLower ((verbs_ascii verb hverb).1 _ hmem)

theorem mem_verbs_of_verb? {read : List String → Except CommandFault Action}
    (h : verb? verb = some read) : verb ∈ verbs := by
  by_contra hverb
  rw [verb?_of_not_mem hverb] at h
  cases h

/-! ## Lines -/

variable {line : String} {words : List String}

theorem parse_of_spellsVerb (h : lineTokens line = first :: words)
    {read : List String → Except CommandFault Action} (hread : verb? verb = some read)
    (hspells : SpellsVerb first verb) : Action.parse line = read words :=
  parse_of_verb? h ((lowered_eq_iff (mem_verbs_of_verb? hread)).mpr hspells) hread

theorem parse_of_no_verb (h : lineTokens line = first :: words)
    (hnone : ∀ verb ∈ verbs, ¬ SpellsVerb first verb) :
    Action.parse line = .error ⟨.invalidAction, some (lowered first)⟩ :=
  parse_of_otherVerb h <| verb?_of_not_mem fun hmem =>
    hnone _ hmem ((lowered_eq_iff hmem).mp rfl)

/-- The readers of the verbs have faults of their own, and never the one of a missing verb. -/
theorem parse_ne_invalidAction (h : lineTokens line = first :: words) (hverb : verb ∈ verbs)
    (hspells : SpellsVerb first verb) (argument : Option String) :
    Action.parse line ≠ .error ⟨.invalidAction, argument⟩ := by
  intro hparse
  have hrefused := parse_eq_error_iff.mp hparse
  rw [h] at hrefused
  cases hrefused with
  | otherVerb hother => exact hother ((lowered_eq_iff hverb).mpr hspells ▸ hverb)

end

end Command

/-! ## The law -/

open Command

/-- The first word of a line is taken for a verb exactly when it is one up to the case of the
letters of ASCII, and then the words behind it go to the reader of this verb. Every other first word
is refused as no verb, and so is every one with a character outside of ASCII. -/
theorem only_spellings_in_ascii_are_verbs {line first : String} {words : List String}
    (h : lineTokens line = first :: words) :
    ((∀ argument, Action.parse line ≠ .error ⟨.invalidAction, argument⟩) ↔
      ∃ verb ∈ verbs, SpellsVerb first verb) ∧
    (∀ verb read, verb? verb = some read → SpellsVerb first verb →
      Action.parse line = read words) ∧
    (∀ action, Action.parse line = .ok action → SpellsVerb first action.verb) ∧
    ((∃ c ∈ first.toList, 128 ≤ c.toNat) →
      Action.parse line = .error ⟨.invalidAction, some (lowered first)⟩) := by
  refine ⟨⟨fun hnot => ?_, ?_⟩, fun verb read => parse_of_spellsVerb h, fun action hparse => ?_,
    ?_⟩
  · by_contra hnone
    push Not at hnone
    exact hnot _ (parse_of_no_verb h hnone)
  · rintro ⟨verb, hverb, hspells⟩
    exact parse_ne_invalidAction h hverb hspells
  · have haccepted := parse_eq_ok_iff.mp hparse
    rw [h] at haccepted
    obtain ⟨hverb, _⟩ := haccepted
    exact (lowered_eq_iff action.verb_mem_verbs).mp hverb
  · rintro ⟨c, hc, hout⟩
    refine parse_of_no_verb h fun verb hverb hspells => ?_
    have hascii := hspells.ascii hverb c hc
    omega

/-- Capitals of ASCII make a verb. A long s in the place of the first letter does not, though it is
an s to a reader, and a dotted capital I does not, though it is lowered to an i and a dot. -/
theorem a_long_s_makes_no_struct :
    Action.parse "STRucT pair int" = .ok (.addStruct "pair" ["int"]) ∧
      Action.parse "\u017ftruct pair int" = .error ⟨.invalidAction, some "\u017ftruct"⟩ ∧
      Action.parse "EX\u0130T" = .error ⟨.invalidAction, some "exi\u0307t"⟩ := by
  have hcapitals : lineTokens "STRucT pair int" = ["STRucT", "pair", "int"] := by decide
  have hlong : lineTokens "\u017ftruct pair int" = ["\u017ftruct", "pair", "int"] := by decide
  have hdotted : lineTokens "EX\u0130T" = ["EX\u0130T"] := by decide
  obtain ⟨_, hread, _⟩ := only_spellings_in_ascii_are_verbs hcapitals
  obtain ⟨_, _, _, hlongs⟩ := only_spellings_in_ascii_are_verbs hlong
  obtain ⟨_, _, _, hdots⟩ := only_spellings_in_ascii_are_verbs hdotted
  refine ⟨hread "struct" _ rfl (by decide), ?_, ?_⟩
  · have hlowered : lowered "\u017ftruct" = "\u017ftruct" := by decide +kernel
    rw [hlongs ⟨'\u017f', by decide, by decide⟩, hlowered]
  · have hlowered : lowered "EX\u0130T" = "exi\u0307t" := by decide +kernel
    rw [hdots ⟨'\u0130', by decide, by decide⟩, hlowered]

end DataLayout
