-- The law of the options of the local checks. Switches by their names or by clear starts of them,
-- letters behind one dash, and `--fuzzing` with its values come in any number and any order. Each
-- group of arguments does its own part, whatever stands before it and behind it.
import Mathlib.Data.List.Induction
import Mathlib.Data.List.Infix
import DataLayout.Checks.Arguments

namespace DataLayout.Checks

/-! ## Groups of arguments -/

/-- The options that take no value, without the one that asks for help. -/
inductive Switch
  | install
  | noLinter
  | noTests
  | coverage
  | quiet
  deriving DecidableEq

namespace Switch

def flag : Switch → Flag
  | .install => .install
  | .noLinter => .noLinter
  | .noTests => .noTests
  | .coverage => .coverage
  | .quiet => .quiet

def name : Switch → String
  | .install => "--install"
  | .noLinter => "--no-linter"
  | .noTests => "--no-tests"
  | .coverage => "--coverage"
  | .quiet => "--quiet"

def isOn (choices : Choices) : Switch → Bool
  | .install => choices.install
  | .noLinter => choices.noLinter
  | .noTests => choices.noTests
  | .coverage => choices.coverage
  | .quiet => choices.quiet

end Switch

/-- The switches that have a letter. -/
inductive Letter
  | i
  | c
  | q
  deriving DecidableEq

namespace Letter

def char : Letter → Char
  | .i => 'i'
  | .c => 'c'
  | .q => 'q'

def switch : Letter → Switch
  | .i => .install
  | .c => .coverage
  | .q => .quiet

end Letter

/-- The long names of all options. -/
def longNames : List String :=
  ["--help", "--install", "--no-linter", "--no-tests", "--coverage", "--quiet", "--fuzzing"]

/-- A start of a long name that no other long name has. -/
def Abbreviates (start name : String) : Prop :=
  start.toList <+: name.toList ∧ ∀ other ∈ longNames, start.toList <+: other.toList → other = name

instance (start name : String) : Decidable (Abbreviates start name) :=
  inferInstanceAs (Decidable (_ ∧ _))

/-- What is taken for a value wherever it stands. -/
def IsValue (text : String) : Prop := text = "" ∨ text = "-" ∨ text.toList.head? ≠ some '-'

instance (text : String) : Decidable (IsValue text) := inferInstanceAs (Decidable (_ ∨ _))

/-- Arguments that belong together: one or more options with their values. -/
inductive OptionGroup
  /-- A switch by its name. -/
  | switchName (switch : Switch) (start : String) (clear : Abbreviates start switch.name)
  /-- Letters of switches behind one dash. -/
  | switchLetters (first : Letter) (more : List Letter)
  /-- A dash, perhaps letters of switches, and the letter of `--fuzzing`. Its values follow. -/
  | fuzzingLetter (letters : List Letter) (values : List String)
      (plain : ∀ value ∈ values, IsValue value)
  /-- The name of `--fuzzing`. Its values follow. -/
  | fuzzingName (start : String) (clear : Abbreviates start "--fuzzing") (values : List String)
      (plain : ∀ value ∈ values, IsValue value)
  /-- A value right behind the letter of `--fuzzing`. -/
  | attached (value : String) (nonempty : value ≠ "") (noEquals : value.toList.head? ≠ some '=')
      (noSeparator : value ≠ "--")
  /-- A value behind the name of `--fuzzing` and an equals sign. -/
  | assigned (value : String) (noSeparator : value ≠ "--")

namespace OptionGroup

/-- The argument that names the options of a group. -/
def opening : OptionGroup → String
  | switchName _ start _ => start
  | switchLetters first more => String.ofList ('-' :: (first :: more).map Letter.char)
  | fuzzingLetter letters _ _ => String.ofList ('-' :: (letters.map Letter.char ++ ['f']))
  | fuzzingName start _ _ _ => start
  | attached value _ _ _ => "-f" ++ value
  | assigned value _ => "--fuzzing=" ++ value

/-- The values in arguments of their own. -/
def following : OptionGroup → List String
  | fuzzingLetter _ values _ => values
  | fuzzingName _ _ values _ => values
  | _ => []

def arguments (group : OptionGroup) : List String := group.opening :: group.following

/-- The switches that a group names. -/
def switches : OptionGroup → List Switch
  | switchName switch _ _ => [switch]
  | switchLetters first more => (first :: more).map Letter.switch
  | fuzzingLetter letters _ _ => letters.map Letter.switch
  | _ => []

/-- The values that a group gives to `--fuzzing`. -/
def values? : OptionGroup → Option (List String)
  | fuzzingLetter _ values _ => some values
  | fuzzingName _ _ values _ => some values
  | attached value _ _ _ => some [value]
  | assigned value _ => some [value]
  | _ => none

end OptionGroup

/-- The last group that gives values to `--fuzzing`. -/
def lastFuzzing (groups : List OptionGroup) : Option OptionGroup :=
  (groups.filter fun group => group.values?.isSome).getLast?

/-! ## Forms of single arguments -/

/-- All starts of long names that have no other meaning. The names are few and short. -/
theorem form_start : ∀ name ∈ longNames, ∀ start ∈ name.toList.inits,
    Abbreviates (String.ofList start) name →
      (form (String.ofList start)).toOption = (Flag.ofSpelling? name).map (.long · none) := by
  decide +kernel

theorem form_of_abbreviates {start name : String} {flag : Flag} (hname : name ∈ longNames)
    (hflag : Flag.ofSpelling? name = some flag) (h : Abbreviates start name) :
    form start = .ok (.long flag none) := by
  have hstart := form_start name hname start.toList ((List.mem_inits _ _).mpr h.1)
  rw [String.ofList_toList, hflag, Option.map_some] at hstart
  have hform := hstart h
  generalize form start = found at hform ⊢
  cases found with
  | error fault => cases hform
  | ok f => exact congrArg _ (Option.some.inj hform)

theorem form_of_isValue {text : String} (h : IsValue text) : form text = .ok .value := by
  rcases h with rfl | rfl | h
  · rfl
  · rfl
  · unfold form
    cases hchars : text.toList with
    | nil => rfl
    | cons c rest =>
      have hc : c ≠ '-' := by simpa [hchars] using h
      split <;> simp_all

/-- The letter of an option, alone or with more behind it. -/
theorem form_letter {letter : Char} {flag : Flag} {rest : List Char} (hdash : letter ≠ '-')
    (hflag : Flag.ofLetter? letter = some flag) (hequals : rest.head? ≠ some '=') :
    form (String.ofList ('-' :: letter :: rest)) =
      .ok (.short flag (if rest = [] then none else some rest)) := by
  have hform : form (String.ofList ('-' :: letter :: rest)) = .ok (shortForm letter rest) := by
    unfold form
    rw [String.toList_ofList]
    split <;> simp_all
  rw [hform]
  unfold shortForm
  cases rest with
  | nil => simp [hflag]
  | cons c rest =>
    have hc : c ≠ '=' := by simpa using hequals
    simp [hflag, hc]

theorem splitEquals_append {start text : List Char} (h : '=' ∉ start) :
    splitEquals (start ++ '=' :: text) = (start, some text) := by
  have hbefore : ∀ c ∈ start, decide (c ≠ '=') = true := fun c hc =>
    decide_eq_true fun hequals => h (hequals ▸ hc)
  unfold splitEquals
  rw [List.dropWhile_append_of_pos hbefore, List.takeWhile_append_of_pos hbefore]
  simp

theorem form_assigned (value : String) :
    form ("--fuzzing=" ++ value) = .ok (.long .fuzzing (some value.toList)) := by
  have hchars : ("--fuzzing=" ++ value).toList = "--fuzzing".toList ++ '=' :: value.toList := by
    rw [String.toList_append]
    rfl
  have hlong : form ("--fuzzing=" ++ value) = longForm ("--fuzzing=" ++ value) := by
    unfold form
    rw [hchars]
    rfl
  rw [hlong, longForm, hchars, splitEquals_append (by decide)]
  rfl

/-! ## Openings -/

theorem Letter.ofLetter?_char (letter : Letter) :
    Flag.ofLetter? letter.char = some letter.switch.flag := by
  cases letter <;> decide

theorem Switch.flag_ne_help (switch : Switch) : switch.flag ≠ .help := by
  cases switch <;> decide

theorem Switch.flag_ne_fuzzing (switch : Switch) : switch.flag ≠ .fuzzing := by
  cases switch <;> decide

/-- What may stand behind letters of switches. -/
inductive Ends : List Char → List Flag → Prop
  | nothing : Ends [] []
  | fuzzing : Ends ['f'] [.fuzzing]

theorem Ends.eq_nil_of_append {last : List Char} {flags : List Flag} (h : Ends last flags)
    {letters : List Letter} (hend : letters.map Letter.char ++ last = []) :
    letters = [] ∧ last = [] ∧ flags = [] := by
  obtain ⟨hletters, rfl⟩ := List.append_eq_nil_iff.mp hend
  cases h
  exact ⟨List.map_eq_nil_iff.mp hletters, rfl, rfl⟩

/-- No equals sign is behind a letter. -/
theorem head?_letters_ne {last : List Char} {flags : List Flag} (hends : Ends last flags)
    (letters : List Letter) : (letters.map Letter.char ++ last).head? ≠ some '=' := by
  cases letters with
  | nil => cases hends <;> decide
  | cons next more => cases next <;> simp [Letter.char]

theorem bundle_letters (dialect : Dialect) (first : Letter) (more : List Letter)
    {last : List Char} {flags : List Flag} (hends : Ends last flags)
    (hne : more.map Letter.char ++ last ≠ []) :
    bundle dialect first.switch.flag (more.map Letter.char ++ last) =
      .ok ⟨first.switch.flag :: (more.map (·.switch.flag) ++ flags), none, none⟩ := by
  induction more generalizing first with
  | nil =>
    cases hends with
    | nothing => exact absurd rfl hne
    | fuzzing => cases dialect <;> cases first <;> rfl
  | cons next more ih =>
    rw [List.map_cons, List.cons_append, bundle, if_neg first.switch.flag_ne_fuzzing,
      next.ofLetter?_char]
    by_cases hend : more.map Letter.char ++ last = []
    · obtain ⟨rfl, rfl, rfl⟩ := hends.eq_nil_of_append hend
      rfl
    · simp only [List.isEmpty_iff, hend, head?_letters_ne hends more, and_false, if_false,
        ih next hend]
      rfl

/-- An argument stands for options, and perhaps for a value of the last one. -/
def Names (dialect : Dialect) (argument : String) (given : Given) : Prop :=
  ∃ f, form argument = .ok f ∧ given? dialect f = some (.ok given)

theorem names_letters (dialect : Dialect) (first : Letter) (more : List Letter)
    {last : List Char} {flags : List Flag} (hends : Ends last flags) :
    Names dialect (String.ofList ('-' :: first.char :: (more.map Letter.char ++ last)))
      ⟨first.switch.flag :: (more.map (·.switch.flag) ++ flags), none, none⟩ := by
  have hdash : first.char ≠ '-' := by cases first <;> decide
  refine ⟨_, form_letter hdash first.ofLetter?_char (head?_letters_ne hends more), ?_⟩
  by_cases hend : more.map Letter.char ++ last = []
  · obtain ⟨rfl, rfl, rfl⟩ := hends.eq_nil_of_append hend
    rfl
  · rw [if_neg hend, given?, bundle_letters dialect first more hends hend]

theorem names_attached (dialect : Dialect) {value : String} (hne : value ≠ "")
    (hequals : value.toList.head? ≠ some '=') :
    Names dialect ("-f" ++ value) ⟨[.fuzzing], some value, none⟩ := by
  have hchars : "-f" ++ value = String.ofList ('-' :: 'f' :: value.toList) := by
    rw [← String.toList_inj]
    simp
  refine ⟨_, hchars ▸ form_letter (by decide) rfl hequals, ?_⟩
  have hne' : value.toList ≠ [] := fun h => hne (String.toList_eq_nil_iff.mp h)
  obtain ⟨c, rest, hrest⟩ := List.exists_cons_of_ne_nil hne'
  rw [if_neg hne', given?, hrest, bundle, if_pos rfl, ← hrest, withValue, if_pos rfl,
    String.ofList_toList]

namespace OptionGroup

/-- The options of a group, and the value that stands in its opening. -/
def given : OptionGroup → Given
  | switchName switch _ _ => alone switch.flag
  | switchLetters first more => ⟨(first :: more).map (·.switch.flag), none, none⟩
  | fuzzingLetter letters _ _ => ⟨letters.map (·.switch.flag) ++ [.fuzzing], none, none⟩
  | fuzzingName _ _ _ _ => alone .fuzzing
  | attached value _ _ _ => ⟨[.fuzzing], some value, none⟩
  | assigned value _ => ⟨[.fuzzing], some value, none⟩

theorem left_given (group : OptionGroup) : group.given.left = none := by
  cases group <;> rfl

theorem names_opening (dialect : Dialect) (group : OptionGroup) :
    Names dialect group.opening group.given := by
  cases group with
  | switchName switch start clear =>
    refine ⟨_, form_of_abbreviates ?_ ?_ clear, rfl⟩ <;> cases switch <;> decide
  | switchLetters first more =>
    simpa [opening, given] using names_letters dialect first more .nothing
  | fuzzingLetter letters values plain =>
    cases letters with
    | nil => exact ⟨_, form_letter (by decide) rfl (by decide), rfl⟩
    | cons first more => exact names_letters dialect first more .fuzzing
  | fuzzingName start clear values plain =>
    exact ⟨_, form_of_abbreviates (by decide) rfl clear, rfl⟩
  | attached value nonempty noEquals noSeparator => exact names_attached dialect nonempty noEquals
  | assigned value noSeparator =>
    refine ⟨_, form_assigned value, ?_⟩
    rw [given?, withValue, if_pos rfl, String.ofList_toList]
    rfl

theorem mem_flags_given (group : OptionGroup) (flag : Flag) :
    flag ∈ group.given.flags ↔ (∃ switch ∈ group.switches, switch.flag = flag) ∨
      flag = .fuzzing ∧ group.values?.isSome = true := by
  cases group <;> simp [given, alone, switches, values?, eq_comm]

theorem help_notMem_flags_given (group : OptionGroup) : .help ∉ group.given.flags := by
  rw [mem_flags_given]
  rintro (⟨switch, -, h⟩ | ⟨h, -⟩)
  · exact switch.flag_ne_help h
  · cases h

theorem fuzzing_mem_flags_given (group : OptionGroup) :
    .fuzzing ∈ group.given.flags ↔ group.values?.isSome = true := by
  rw [mem_flags_given]
  simp [Switch.flag_ne_fuzzing]

end OptionGroup

/-! ## Reading on -/

/-- Reads arguments behind others that were read. -/
def readFrom (dialect : Dialect) (choices : Choices) (collecting : Bool)
    (left arguments : List String) : Reading :=
  match forms arguments with
  | .error fault => .refused fault
  | .ok found => take dialect choices collecting left found

section

variable {dialect : Dialect} {choices : Choices} {collecting : Bool} {left rest : List String}

theorem readFrom_names {argument : String} {given : Given} (h : Names dialect argument given)
    (hhelp : .help ∉ given.flags) (hleft : given.left = none) :
    readFrom dialect choices collecting left (argument :: rest) =
      readFrom dialect (choices.give dialect given) (takesValues given) left rest := by
  obtain ⟨f, hform, hgiven⟩ := h
  have hseparator : f ≠ .separator := by
    rintro rfl
    cases hgiven
  unfold readFrom
  rw [forms, hform]
  cases hrest : forms rest with
  | error fault => simp [bind, Except.bind, hseparator]
  | ok found => simp [bind, Except.bind, pure, Except.pure, hseparator, take, hgiven, hhelp,
      hleft]

theorem readFrom_value {value : String} (h : IsValue value) :
    readFrom dialect choices true left (value :: rest) =
      readFrom dialect (choices.addValue value) true left rest := by
  unfold readFrom
  rw [forms, form_of_isValue h]
  cases forms rest with
  | error fault => rfl
  | ok found => simp [bind, Except.bind, pure, Except.pure, take, given?]

theorem readFrom_values {values : List String} (h : ∀ value ∈ values, IsValue value) :
    readFrom dialect choices true left (values ++ rest) =
      readFrom dialect (values.foldl Choices.addValue choices) true left rest := by
  induction values generalizing choices with
  | nil => rfl
  | cons value values ih =>
    rw [List.cons_append, readFrom_value (h value List.mem_cons_self),
      ih fun v hv => h v (List.mem_cons_of_mem _ hv), List.foldl_cons]

end

/-! ## What a group does -/

namespace Switch

theorem flag_inj {switch other : Switch} : switch.flag = other.flag ↔ switch = other := by
  cases switch <;> cases other <;> simp [flag]

theorem isOn_set (switch : Switch) (choices : Choices) (flag : Flag) :
    switch.isOn (choices.set flag) = true ↔
      switch.flag = flag ∨ switch.isOn choices = true := by
  cases switch <;> cases flag <;> simp [isOn, Choices.set, Switch.flag]

theorem isOn_foldl_set (switch : Switch) (flags : List Flag) (choices : Choices) :
    switch.isOn (flags.foldl Choices.set choices) = true ↔
      switch.flag ∈ flags ∨ switch.isOn choices = true := by
  induction flags generalizing choices with
  | nil => simp
  | cons flag flags ih => rw [List.foldl_cons, ih, isOn_set, List.mem_cons, or_left_comm, or_assoc]

@[simp] theorem isOn_addValue (switch : Switch) (choices : Choices) (value : String) :
    switch.isOn (choices.addValue value) = switch.isOn choices := by
  cases switch <;> rfl

@[simp] theorem isOn_foldl_addValue (switch : Switch) (values : List String) (choices : Choices) :
    switch.isOn (values.foldl Choices.addValue choices) = switch.isOn choices := by
  induction values generalizing choices with
  | nil => rfl
  | cons value values ih => rw [List.foldl_cons, ih, isOn_addValue]

theorem isOn_give (switch : Switch) (dialect : Dialect) (choices : Choices) (given : Given) :
    switch.isOn (choices.give dialect given) = true ↔
      switch.flag ∈ given.flags ∨ switch.isOn choices = true := by
  rw [← isOn_foldl_set]
  unfold Choices.give
  split
  · split <;> simp
  · rfl

end Switch

namespace Choices

theorem fuzzing_foldl_set (flags : List Flag) (choices : Choices) :
    (flags.foldl set choices).fuzzing =
      if .fuzzing ∈ flags then some [] else choices.fuzzing := by
  induction flags generalizing choices with
  | nil => rfl
  | cons flag flags ih =>
    rw [List.foldl_cons, ih]
    cases flag <;> simp [set]

theorem fuzzing_give_of_notMem (dialect : Dialect) {given : Given}
    (hflags : .fuzzing ∉ given.flags) (hvalue : given.value = none) (choices : Choices) :
    (choices.give dialect given).fuzzing = choices.fuzzing := by
  rw [give, hvalue, fuzzing_foldl_set, if_neg hflags]

theorem fuzzing_give_of_mem (dialect : Dialect) {given : Given}
    (hflags : .fuzzing ∈ given.flags) (hvalue : given.value ≠ some "--") (choices : Choices) :
    (choices.give dialect given).fuzzing = some given.value.toList := by
  have hset : (given.flags.foldl set choices).fuzzing = some [] := by
    rw [fuzzing_foldl_set, if_pos hflags]
  rw [give]
  cases hgiven : given.value with
  | none => exact hset
  | some value =>
    have hne : value ≠ "--" := fun h => hvalue (h ▸ hgiven)
    simp [hne, addValue, hset]

theorem fuzzing_foldl_addValue (values before : List String) (choices : Choices)
    (h : choices.fuzzing = some before) :
    (values.foldl addValue choices).fuzzing = some (before ++ values) := by
  induction values generalizing before choices with
  | nil => simpa using h
  | cons value values ih =>
    have hvalue : (choices.addValue value).fuzzing = some (before ++ [value]) := by
      simp [addValue, h]
    rw [List.foldl_cons, ih _ _ hvalue, List.append_assoc, List.singleton_append]

/-- Choices are told by their switches and their values. -/
theorem ext_of_isOn {choices others : Choices}
    (hswitches : ∀ switch : Switch, switch.isOn choices = switch.isOn others)
    (hfuzzing : choices.fuzzing = others.fuzzing) : choices = others := by
  cases choices
  cases others
  rw [mk.injEq]
  exact ⟨hswitches .install, hswitches .noLinter, hswitches .noTests, hswitches .coverage,
    hswitches .quiet, hfuzzing⟩

end Choices

namespace OptionGroup

/-- The choices after a group. -/
def choose (dialect : Dialect) (choices : Choices) (group : OptionGroup) : Choices :=
  group.following.foldl Choices.addValue (choices.give dialect group.given)

theorem readFrom_arguments (dialect : Dialect) (group : OptionGroup) (choices : Choices)
    (collecting : Bool) (left rest : List String) :
    readFrom dialect choices collecting left (group.arguments ++ rest) =
      readFrom dialect (choose dialect choices group) (takesValues group.given) left rest := by
  rw [arguments, List.cons_append,
    readFrom_names (group.names_opening dialect) group.help_notMem_flags_given group.left_given]
  cases group with
  | switchName switch start clear => rfl
  | switchLetters first more => rfl
  | fuzzingLetter letters values plain =>
    have htakes : takesValues ⟨letters.map (·.switch.flag) ++ [.fuzzing], none, none⟩ = true := by
      simp [takesValues]
    rw [given, following, htakes, readFrom_values plain]
    rfl
  | fuzzingName start clear values plain => exact readFrom_values plain
  | attached value nonempty noEquals noSeparator => rfl
  | assigned value noSeparator => rfl

theorem isOn_choose (dialect : Dialect) (switch : Switch) (choices : Choices)
    (group : OptionGroup) :
    switch.isOn (choose dialect choices group) = true ↔
      switch ∈ group.switches ∨ switch.isOn choices = true := by
  rw [choose, switch.isOn_foldl_addValue, switch.isOn_give, mem_flags_given]
  simp [switch.flag_ne_fuzzing, Switch.flag_inj]

theorem fuzzing_choose (dialect : Dialect) (choices : Choices) (group : OptionGroup) :
    (choose dialect choices group).fuzzing = group.values?.or choices.fuzzing := by
  have hmem := group.fuzzing_mem_flags_given
  cases group with
  | switchName switch start clear =>
    exact Choices.fuzzing_give_of_notMem dialect (mt hmem.mp Bool.false_ne_true) rfl choices
  | switchLetters first more =>
    exact Choices.fuzzing_give_of_notMem dialect (mt hmem.mp Bool.false_ne_true) rfl choices
  | fuzzingLetter letters values plain =>
    exact Choices.fuzzing_foldl_addValue _ _ _ <|
      Choices.fuzzing_give_of_mem dialect (hmem.mpr rfl) nofun choices
  | fuzzingName start clear values plain =>
    exact Choices.fuzzing_foldl_addValue _ _ _ <|
      Choices.fuzzing_give_of_mem dialect (hmem.mpr rfl) nofun choices
  | attached value nonempty noEquals noSeparator =>
    exact Choices.fuzzing_give_of_mem dialect (hmem.mpr rfl) (mt Option.some.inj noSeparator)
      choices
  | assigned value noSeparator =>
    exact Choices.fuzzing_give_of_mem dialect (hmem.mpr rfl) (mt Option.some.inj noSeparator)
      choices

end OptionGroup

/-! ## Runs of groups -/

open OptionGroup

theorem readFrom_groups (dialect : Dialect) (groups : List OptionGroup) (choices : Choices)
    (collecting : Bool) :
    readFrom dialect choices collecting [] (groups.flatMap arguments) =
      .accepted (groups.foldl (choose dialect) choices) := by
  induction groups generalizing choices collecting with
  | nil => rfl
  | cons group groups ih => rw [List.flatMap_cons, readFrom_arguments, ih, List.foldl_cons]

theorem isOn_foldl_choose (dialect : Dialect) (switch : Switch) (groups : List OptionGroup)
    (choices : Choices) :
    switch.isOn (groups.foldl (choose dialect) choices) = true ↔
      (∃ group ∈ groups, switch ∈ group.switches) ∨ switch.isOn choices = true := by
  induction groups generalizing choices with
  | nil => simp
  | cons group groups ih =>
    rw [List.foldl_cons, ih, isOn_choose, List.exists_mem_cons_iff, or_left_comm, or_assoc]

theorem lastFuzzing_append_singleton (groups : List OptionGroup) (group : OptionGroup) :
    lastFuzzing (groups ++ [group]) =
      if group.values?.isSome then some group else lastFuzzing groups := by
  cases hvalues : group.values? <;> simp [lastFuzzing, hvalues]

theorem fuzzing_foldl_choose (dialect : Dialect) (groups : List OptionGroup)
    (choices : Choices) :
    (groups.foldl (choose dialect) choices).fuzzing =
      ((lastFuzzing groups).bind values?).or choices.fuzzing := by
  induction groups using List.reverseRecOn with
  | nil => rfl
  | append_singleton groups group ih =>
    rw [List.foldl_append, List.foldl_cons, List.foldl_nil, fuzzing_choose, ih,
      lastFuzzing_append_singleton]
    cases hvalues : group.values? with
    | none => rfl
    | some values => simp [hvalues]

/-! ## The law -/

/-- Every sequence of groups of arguments is understood, in either dialect. A switch is on if some
group names it, and the values of `--fuzzing` are those of the last group that gives it any. So the
groups may come in any order, as long as that group stays the last one of its kind. -/
theorem every_spelling_of_the_options_is_understood (dialect : Dialect)
    (groups : List OptionGroup) :
    ∃ choices, read dialect (groups.flatMap arguments) = .accepted choices ∧
      (∀ switch : Switch,
        switch.isOn choices = true ↔ ∃ group ∈ groups, switch ∈ group.switches) ∧
      choices.fuzzing = (lastFuzzing groups).bind values? ∧
      ∀ others : List OptionGroup, others.Perm groups → lastFuzzing others = lastFuzzing groups →
        read dialect (others.flatMap arguments) = .accepted choices := by
  have hisOn : ∀ (gs : List OptionGroup) (switch : Switch),
      switch.isOn (gs.foldl (choose dialect) .nothing) = true ↔
        ∃ group ∈ gs, switch ∈ group.switches := by
    intro gs switch
    have hnothing : switch.isOn .nothing = false := by cases switch <;> rfl
    rw [isOn_foldl_choose, hnothing, or_iff_left Bool.false_ne_true]
  have hfuzzing : ∀ gs : List OptionGroup,
      (gs.foldl (choose dialect) .nothing).fuzzing = (lastFuzzing gs).bind values? := by
    intro gs
    rw [fuzzing_foldl_choose]
    exact Option.or_none
  refine ⟨groups.foldl (choose dialect) .nothing, readFrom_groups dialect groups .nothing false,
    hisOn groups, hfuzzing groups, ?_⟩
  intro others hperm hlast
  have hsame : others.foldl (choose dialect) .nothing =
      groups.foldl (choose dialect) .nothing := by
    apply Choices.ext_of_isOn
    · intro switch
      rw [Bool.eq_iff_iff, hisOn, hisOn]
      simp only [hperm.mem_iff]
    · rw [hfuzzing, hfuzzing, hlast]
  rw [← hsame]
  exact readFrom_groups dialect others .nothing false

/-- The dialects part where the arguments are no such groups. -/
example : read .early ["-if=x", "-f--"] = .accepted ⟨true, false, false, false, false, some []⟩ ∧
    read .late ["-if=x", "-f--"] = .accepted ⟨true, false, false, false, false, some ["--"]⟩ ∧
    read .early ["-i=q"] = .accepted ⟨true, false, false, false, true, none⟩ ∧
    read .late ["-i=q"] = .refused (.unwantedValue .install "q") := by decide

/-- `-qf a - --fuzz '' --no-l` switches the output and the linter off, and the second list of
values, with an empty one in it, replaces the first one. `--no-l` may as well stand in front. -/
theorem a_later_list_of_values_replaces_an_earlier_one :
    ∃ choices, read .late ["-qf", "a", "-", "--fuzz", "", "--no-l"] = .accepted choices ∧
      (∀ switch : Switch, switch.isOn choices = true ↔ switch = .noLinter ∨ switch = .quiet) ∧
      choices.fuzzing = some [""] ∧
      read .late ["--no-l", "-qf", "a", "-", "--fuzz", ""] = .accepted choices := by
  let earlier : OptionGroup := .fuzzingLetter [.q] ["a", "-"] (by decide)
  let later : OptionGroup := .fuzzingName "--fuzz" (by decide) [""] (by decide)
  let linter : OptionGroup := .switchName .noLinter "--no-l" (by decide)
  obtain ⟨choices, hread, hswitches, hfuzzing, hreordered⟩ :=
    every_spelling_of_the_options_is_understood .late [earlier, later, linter]
  have hperm : [linter, earlier, later].Perm [earlier, later, linter] :=
    (List.perm_append_singleton linter [earlier, later]).symm
  refine ⟨choices, hread, fun switch => ?_, hfuzzing, hreordered _ hperm rfl⟩
  rw [hswitches]
  cases switch <;> decide

end DataLayout.Checks
