-- The laws of the grammar. A line is a command exactly when its words spell one. Every other line
-- is refused for the first thing that is wrong with it: its verb, then the number of its words,
-- then its numbers, the first one before the second one.
import DataLayout.Proofs.Blank
import DataLayout.Proofs.LowerCase
import DataLayout.Proofs.Numeral

namespace DataLayout

open Text

/-! ## The language -/

namespace Action

def verb : Action → String
  | .exit => "exit"
  | .describe _ => "describe"
  | .addAtomic .. => "atomic"
  | .addStruct .. => "struct"
  | .addUnion .. => "union"

/-- These words behind its verb spell an action. -/
inductive Spelled : Action → List String → Prop
  | exit (words : List String) : Spelled .exit words
  | describe (name : String) : Spelled (.describe name) [name]
  | addAtomic {name first second : String} {size alignment : Int}
      (hsize : Denotes first.toList size) (halign : Denotes second.toList alignment) :
      Spelled (.addAtomic name size alignment) [name, first, second]
  | addStruct (name : String) (members : List String) :
      Spelled (.addStruct name members) (name :: members)
  | addUnion (name : String) (variants : List String) :
      Spelled (.addUnion name variants) (name :: variants)

end Action

namespace Command

/-- A word as it is compared with the verbs. -/
def lowered (token : String) : String := String.ofList (lower token.toList)

def verbs : List String := ["exit", "describe", "atomic", "struct", "union"]

/-- How many words the verbs want behind them at the least. A verb that is not here wants none. -/
def fewest : List (String × Nat) := [("describe", 1), ("atomic", 3), ("struct", 1), ("union", 1)]

/-- How many words the verbs take at the most. A verb that is not here takes any number. -/
def most : List (String × Nat) := [("describe", 1), ("atomic", 3)]

/-- The words of a line ask for an action. -/
inductive Accepted : List String → Action → Prop
  | mk {first : String} {words : List String} {action : Action}
      (hverb : lowered first = action.verb) (hwords : action.Spelled words) :
      Accepted (first :: words) action

/-- The words of a line ask for no action, and this is the reason that is given. -/
inductive Refused : List String → CommandFault → Prop
  | noVerb : Refused [] tooFew
  | otherVerb {first : String} {words : List String} (h : lowered first ∉ verbs) :
      Refused (first :: words) ⟨.invalidAction, some (lowered first)⟩
  | few {first : String} {words : List String} {least : Nat}
      (hverb : (lowered first, least) ∈ fewest) (h : words.length < least) :
      Refused (first :: words) tooFew
  | many {first : String} {words : List String} {greatest : Nat}
      (hverb : (lowered first, greatest) ∈ most) (h : greatest < words.length) :
      Refused (first :: words) tooMany
  | firstNumber {first name size alignment : String} (hverb : lowered first = "atomic")
      (h : ∀ n, ¬ Denotes size.toList n) :
      Refused [first, name, size, alignment] ⟨.invalidArgument, some size⟩
  | secondNumber {first name size alignment : String} {n : Int} (hverb : lowered first = "atomic")
      (hsize : Denotes size.toList n) (h : ∀ m, ¬ Denotes alignment.toList m) :
      Refused [first, name, size, alignment] ⟨.invalidArgument, some alignment⟩

/-! ## The readers of arguments -/

theorem describe_of_many {words : List String} (h : 1 < words.length) :
    describe words = .error tooMany := by
  rcases words with _ | ⟨name, _ | ⟨other, rest⟩⟩
  · cases h
  · exact absurd h (by simp)
  · rfl

theorem addAtomic_of_length_ne {words : List String} (h : words.length ≠ 3) :
    addAtomic words = if words.length < 3 then .error tooFew else .error tooMany := by
  unfold addAtomic
  split
  · exact absurd rfl h
  · rfl

theorem addAtomic_three (name size alignment : String) :
    addAtomic [name, size, alignment] =
      match count size, count alignment with
      | .error fault, _ => .error fault
      | .ok _, .error fault => .error fault
      | .ok n, .ok m => .ok (.addAtomic name n m) := by
  simp only [addAtomic]
  cases count size with
  | error fault => rfl
  | ok n =>
    cases count alignment with
    | error fault => rfl
    | ok m => rfl

/-- An answer to the words of a line that keeps to the grammar. -/
def Fits (tokens : List String) : Except CommandFault Action → Prop
  | .ok action => Accepted tokens action
  | .error fault => Refused tokens fault

section

variable {first : String}

theorem fits_describe (hverb : lowered first = "describe") (words : List String) :
    Fits (first :: words) (describe words) := by
  rcases words with _ | ⟨name, _ | ⟨other, rest⟩⟩
  · have hfewest : (lowered first, 1) ∈ fewest := by simp [hverb, fewest]
    exact Refused.few hfewest (by simp)
  · exact Accepted.mk hverb (.describe name)
  · have hmost : (lowered first, 1) ∈ most := by simp [hverb, most]
    exact Refused.many hmost (by simp)

theorem fits_addAtomic (hverb : lowered first = "atomic") (words : List String) :
    Fits (first :: words) (addAtomic words) := by
  by_cases hlength : words.length = 3
  · obtain ⟨name, size, alignment, rfl⟩ := List.length_eq_three.mp hlength
    rw [addAtomic_three]
    cases hsize : count size with
    | error fault =>
      obtain ⟨rfl, hnone⟩ := count_eq_error_iff.mp hsize
      exact Refused.firstNumber hverb hnone
    | ok n =>
      have hn := count_eq_ok_iff.mp hsize
      cases halign : count alignment with
      | error fault =>
        obtain ⟨rfl, hnone⟩ := count_eq_error_iff.mp halign
        exact Refused.secondNumber hverb hn hnone
      | ok m => exact Accepted.mk hverb (.addAtomic hn (count_eq_ok_iff.mp halign))
  · rw [addAtomic_of_length_ne hlength]
    have hfewest : (lowered first, 3) ∈ fewest := by simp [hverb, fewest]
    have hmost : (lowered first, 3) ∈ most := by simp [hverb, most]
    split
    · rename_i hfew
      exact Refused.few hfewest hfew
    · exact Refused.many hmost (by omega)

theorem fits_addCompound {action : String → List String → Action}
    (hverb : (lowered first, 1) ∈ fewest)
    (h : ∀ name names, lowered first = (action name names).verb ∧
      (action name names).Spelled (name :: names))
    (words : List String) : Fits (first :: words) (addCompound action words) := by
  cases words with
  | nil => exact Refused.few hverb (by simp)
  | cons name names => exact Accepted.mk (h name names).1 (h name names).2

end

theorem verb?_of_not_mem {verb : String} (h : verb ∉ verbs) : verb? verb = none := by
  simp only [verbs, List.mem_cons, List.not_mem_nil, or_false, not_or] at h
  obtain ⟨hexit, hdescribe, hatomic, hstruct, hunion⟩ := h
  exact verb?.eq_6 verb hexit hdescribe hatomic hstruct hunion

/-- Every verb has its reader, and no other word has one. -/
theorem verb?_cases (verb : String) :
    verb = "exit" ∧ verb? verb = some (fun _ => .ok .exit) ∨
      verb = "describe" ∧ verb? verb = some describe ∨
      verb = "atomic" ∧ verb? verb = some addAtomic ∨
      verb = "struct" ∧ verb? verb = some (addCompound .addStruct) ∨
      verb = "union" ∧ verb? verb = some (addCompound .addUnion) ∨
      verb ∉ verbs ∧ verb? verb = none := by
  by_cases h : verb ∈ verbs
  · simp only [verbs, List.mem_cons, List.not_mem_nil, or_false] at h
    rcases h with rfl | rfl | rfl | rfl | rfl <;> simp [verb?]
  · simp [h, verb?_of_not_mem h]

/-! ## Lines -/

section

variable {line first : String} {words : List String}

theorem parse_of_nil (h : lineTokens line = []) : Action.parse line = .error tooFew := by
  unfold Action.parse
  rw [h]

theorem parse_of_verb? (h : lineTokens line = first :: words) {verb : String}
    (hverb : lowered first = verb) {read : List String → Except CommandFault Action}
    (hread : verb? verb = some read) : Action.parse line = read words := by
  subst hverb
  unfold Action.parse
  unfold lowered at hread
  simp only [h, hread]

theorem parse_of_otherVerb (h : lineTokens line = first :: words)
    (hnone : verb? (lowered first) = none) :
    Action.parse line = .error ⟨.invalidAction, some (lowered first)⟩ := by
  unfold Action.parse
  unfold lowered at hnone ⊢
  simp only [h, hnone]

/-- Whatever is answered to a line keeps to the grammar. -/
theorem fits_parse (line : String) : Fits (lineTokens line) (Action.parse line) := by
  cases htokens : lineTokens line with
  | nil =>
    rw [parse_of_nil htokens]
    exact Refused.noVerb
  | cons first words =>
    rcases verb?_cases (lowered first) with ⟨hverb, hread⟩ | ⟨hverb, hread⟩ | ⟨hverb, hread⟩ |
      ⟨hverb, hread⟩ | ⟨hverb, hread⟩ | ⟨hverb, hnone⟩
    · rw [parse_of_verb? htokens rfl hread]
      exact Accepted.mk hverb (.exit words)
    · rw [parse_of_verb? htokens rfl hread]
      exact fits_describe hverb words
    · rw [parse_of_verb? htokens rfl hread]
      exact fits_addAtomic hverb words
    · rw [parse_of_verb? htokens rfl hread]
      exact fits_addCompound (by simp [hverb, fewest])
        (fun name names => ⟨hverb, .addStruct name names⟩) words
    · rw [parse_of_verb? htokens rfl hread]
      exact fits_addCompound (by simp [hverb, fewest])
        (fun name names => ⟨hverb, .addUnion name names⟩) words
    · rw [parse_of_otherVerb htokens hnone]
      exact Refused.otherVerb hverb

theorem parse_of_atomic {name size alignment : String}
    (h : lineTokens line = [first, name, size, alignment]) (hverb : lowered first = "atomic") :
    Action.parse line =
      match count size, count alignment with
      | .error fault, _ => .error fault
      | .ok _, .error fault => .error fault
      | .ok n, .ok m => .ok (.addAtomic name n m) := by
  rw [parse_of_verb? h hverb rfl, addAtomic_three]

theorem parse_of_accepted {action : Action} (h : Accepted (lineTokens line) action) :
    Action.parse line = .ok action := by
  generalize htokens : lineTokens line = tokens at h
  obtain ⟨hverb, hwords⟩ := h
  cases hwords with
  | exit => exact parse_of_verb? htokens hverb rfl
  | describe => exact parse_of_verb? htokens hverb rfl
  | addAtomic hsize halign =>
    rw [parse_of_atomic htokens hverb, count_eq_ok_iff.mpr hsize, count_eq_ok_iff.mpr halign]
  | addStruct =>
    exact parse_of_verb? htokens hverb rfl
  | addUnion => exact parse_of_verb? htokens hverb rfl

theorem parse_of_few {least : Nat} (h : lineTokens line = first :: words)
    (hverb : (lowered first, least) ∈ fewest) (hfew : words.length < least) :
    Action.parse line = .error tooFew := by
  have hempty : least = 1 → words = [] := by
    rintro rfl
    exact List.length_eq_zero_iff.mp (by omega)
  simp only [fewest, List.mem_cons, Prod.mk.injEq, List.not_mem_nil, or_false] at hverb
  rcases hverb with ⟨hverb, hleast⟩ | ⟨hverb, hleast⟩ | ⟨hverb, hleast⟩ | ⟨hverb, hleast⟩
  · rw [parse_of_verb? h hverb rfl, hempty hleast]
    rfl
  · subst hleast
    rw [parse_of_verb? h hverb rfl,
      addAtomic_of_length_ne (by omega), if_pos hfew]
  · rw [parse_of_verb? h hverb rfl, hempty hleast]
    rfl
  · rw [parse_of_verb? h hverb rfl, hempty hleast]
    rfl

theorem parse_of_many {greatest : Nat} (h : lineTokens line = first :: words)
    (hverb : (lowered first, greatest) ∈ most) (hmany : greatest < words.length) :
    Action.parse line = .error tooMany := by
  simp only [most, List.mem_cons, Prod.mk.injEq, List.not_mem_nil, or_false] at hverb
  rcases hverb with ⟨hverb, rfl⟩ | ⟨hverb, rfl⟩
  · rw [parse_of_verb? h hverb rfl, describe_of_many hmany]
  · rw [parse_of_verb? h hverb rfl,
      addAtomic_of_length_ne (by omega), if_neg (by omega)]

theorem parse_of_refused {fault : CommandFault} (h : Refused (lineTokens line) fault) :
    Action.parse line = .error fault := by
  generalize htokens : lineTokens line = tokens at h
  cases h with
  | noVerb => exact parse_of_nil htokens
  | otherVerb hother => exact parse_of_otherVerb htokens (verb?_of_not_mem hother)
  | few hverb hfew => exact parse_of_few htokens hverb hfew
  | many hverb hmany => exact parse_of_many htokens hverb hmany
  | firstNumber hverb hnone =>
    rw [parse_of_atomic htokens hverb, count_eq_error_iff.mpr ⟨rfl, hnone⟩]
  | secondNumber hverb hsize hnone =>
    rw [parse_of_atomic htokens hverb, count_eq_ok_iff.mpr hsize,
      count_eq_error_iff.mpr ⟨rfl, hnone⟩]

end

theorem parse_eq_ok_iff {line : String} {action : Action} :
    Action.parse line = .ok action ↔ Accepted (lineTokens line) action := by
  refine ⟨fun h => ?_, parse_of_accepted⟩
  have hfits := fits_parse line
  rwa [h] at hfits

theorem parse_eq_error_iff {line : String} {fault : CommandFault} :
    Action.parse line = .error fault ↔ Refused (lineTokens line) fault := by
  refine ⟨fun h => ?_, parse_of_refused⟩
  have hfits := fits_parse line
  rwa [h] at hfits

end Command

/-- The numbers of an action that was read can be written again. -/
theorem Action.writable_of_parse {line : String} {action : Action}
    (h : Action.parse line = .ok action) : action.writable .standard = true := by
  have haccepted := Command.parse_eq_ok_iff.mp h
  generalize lineTokens line = tokens at haccepted
  obtain ⟨_, hwords⟩ := haccepted
  cases hwords with
  | addAtomic hsize halign => simp [Action.writable, hsize.writable, halign.writable]
  | _ => rfl

/-- A line that is no command has a message. -/
theorem Action.message_of_parse {line : String} {fault : CommandFault}
    (h : Action.parse line = .error fault) : ∃ message, fault.message? = some message := by
  have hrefused := Command.parse_eq_error_iff.mp h
  generalize lineTokens line = tokens at hrefused
  cases hrefused with
  | _ => exact ⟨_, rfl⟩

/-- The words of a line, and no others, make up the line with blanks around them. -/
theorem lineTokens_eq_iff {line : String} {tokens : List String} :
    lineTokens line = tokens ↔ Spaced line.toList (tokens.map String.toList) := by
  rw [lineTokens, ← words_eq_iff]
  constructor
  · rintro rfl
    simp [List.map_map]
  · intro h
    simp [h, List.map_map]

/-! ## Spellings -/

namespace Action

/-- A line that spells an action: its verb in any mix of capitals and small letters, its names as
they are, its numbers in any numerals, and any blanks around these words. -/
def Renders (action : Action) (line : String) : Prop :=
  ∃ first words, first.toList.map Char.toLower = action.verb.toList ∧ action.Spelled words ∧
    Spaced line.toList ((first :: words).map String.toList)

def names : Action → List String
  | .exit => []
  | .describe name => [name]
  | .addAtomic name _ _ => [name]
  | .addStruct name members => name :: members
  | .addUnion name variants => name :: variants

def numbers : Action → List Int
  | .addAtomic _ size alignment => [size, alignment]
  | _ => []

/-- The words of an action in its plain spelling, without the verb. -/
def plainWords : Action → List String
  | .addAtomic name size alignment =>
    [name, String.ofList (numeral size), String.ofList (numeral alignment)]
  | action => action.names

/-- The plain spelling: one blank between the words, and no digit too many. -/
def plainLine (action : Action) : String :=
  " ".intercalate (action.verb :: action.plainWords)

/-- An action that can be put into a line: its names are words, and its numbers are counts that
are short enough. -/
structure Sayable (action : Action) : Prop where
  names : ∀ name ∈ action.names, IsWord name.toList
  numbers : ∀ n ∈ action.numbers, 0 ≤ n ∧ (digits n.natAbs).length ≤ 4300

variable {action : Action} {line : String}

theorem verb_mem_verbs (action : Action) : action.verb ∈ Command.verbs := by
  cases action <;> simp [verb, Command.verbs]

theorem lowered_of_spelling {first : String}
    (h : first.toList.map Char.toLower = action.verb.toList) :
    Command.lowered first = action.verb := by
  have hascii : ∀ verb ∈ Command.verbs, verb.toList.all (·.toNat < 128) = true := by decide
  have hverb : ∀ c ∈ action.verb.toList, c.toNat < 128 := by
    simpa using hascii _ action.verb_mem_verbs
  rw [Command.lowered, lower_of_spelling hverb h, String.ofList_toList]

theorem parse_of_renders (h : action.Renders line) : parse line = .ok action := by
  obtain ⟨first, words, hverb, hwords, hspaced⟩ := h
  refine Command.parse_of_accepted ?_
  rw [lineTokens_eq_iff.mpr hspaced]
  exact .mk (lowered_of_spelling hverb) hwords

/-- The plain words of an action spell it, and each of them is one word. -/
theorem Sayable.plainWords (h : action.Sayable) : action.Spelled action.plainWords ∧
    ∀ word ∈ action.plainWords, IsWord word.toList := by
  cases action with
  | exit => exact ⟨.exit [], h.names⟩
  | describe name => exact ⟨.describe name, h.names⟩
  | addAtomic name size alignment =>
    have hdenotes : ∀ n ∈ [size, alignment], Denotes (String.ofList (numeral n)).toList n := by
      intro n hn
      obtain ⟨hpos, hlength⟩ := h.numbers n hn
      rw [String.toList_ofList]
      exact denotes_numeral hpos hlength
    have hsize := hdenotes size (by simp)
    have halign := hdenotes alignment (by simp)
    refine ⟨.addAtomic hsize halign, List.forall_mem_cons.mpr ⟨?_, List.forall_mem_cons.mpr
      ⟨hsize.isWord, List.forall_mem_singleton.mpr halign.isWord⟩⟩⟩
    exact h.names name List.mem_cons_self
  | addStruct name members => exact ⟨.addStruct name members, h.names⟩
  | addUnion name variants => exact ⟨.addUnion name variants, h.names⟩

/-- The plain spelling of an action is a spelling of it. -/
theorem Sayable.renders (h : action.Sayable) : action.Renders action.plainLine := by
  have hverbs : ∀ verb ∈ Command.verbs, IsWord verb.toList ∧
      verb.toList.map Char.toLower = verb.toList := by decide
  obtain ⟨hverb, hlower⟩ := hverbs _ action.verb_mem_verbs
  obtain ⟨hspelled, hwords⟩ := h.plainWords
  refine ⟨action.verb, action.plainWords, hlower, hspelled, ?_⟩
  rw [plainLine, String.toList_intercalate]
  refine spaced_intercalate (c := ' ') ?_ (by decide)
  rw [List.forall_mem_map]
  exact List.forall_mem_cons.mpr ⟨hverb, hwords⟩

end Action

/-! ## The law -/

/-- The words of a line are the longest runs without a blank. A line asks for an action exactly
when its words spell it, and is refused exactly for the first thing that is wrong with them. So
every spelling of an action is read as this action, and every action of words and of counts that
are short enough has a spelling. -/
theorem the_lines_that_are_read_are_the_spellings_of_actions (line : String) (action : Action) :
    (∀ tokens, lineTokens line = tokens ↔ Spaced line.toList (tokens.map String.toList)) ∧
    (Action.parse line = .ok action ↔ Command.Accepted (lineTokens line) action) ∧
    (∀ fault, Action.parse line = .error fault ↔ Command.Refused (lineTokens line) fault) ∧
    (action.Renders line → Action.parse line = .ok action) ∧
    (action.Sayable → action.Renders action.plainLine) :=
  ⟨fun _ => lineTokens_eq_iff, Command.parse_eq_ok_iff, fun _ => Command.parse_eq_error_iff,
    Action.parse_of_renders, fun h => h.renders⟩

/-- Capitals, a wide blank, a leading zero and an Arabic digit. -/
theorem an_atomic_in_odd_spelling_is_read :
    Action.parse "\tAtOmIc Word\u3000+0_4  ٤\n" = .ok (.addAtomic "Word" 4 4) := by
  have hlaw := the_lines_that_are_read_are_the_spellings_of_actions
    "\tAtOmIc Word\u3000+0_4  ٤\n" (.addAtomic "Word" 4 4)
  have hspaced := (hlaw.1 ["AtOmIc", "Word", "+0_4", "٤"]).mp (by decide)
  refine hlaw.2.2.2.1 ⟨"AtOmIc", ["Word", "+0_4", "٤"], by decide, .addAtomic ?_ ?_, hspaced⟩
  · exact Command.count_eq_ok_iff.mp (by decide)
  · exact Command.count_eq_ok_iff.mp (by decide)

end DataLayout
