-- The laws of the lines of the log. A text in quotes shows each of its characters, and a line of
-- the log says what its record holds.
import DataLayout.Journal
import DataLayout.Proofs.Numeral
import Mathlib.Data.List.Forall2
import Mathlib.Data.Nat.Digits.Defs

namespace DataLayout

open Text

/-! ## Quotes -/

namespace Text

/-- So many hexadecimal digits that stand for a number. -/
def SpellsHex (width n : Nat) (digits : List Char) : Prop :=
  ∃ places : List Nat, places.length = width ∧ (∀ d ∈ places, d < 16) ∧
    Nat.ofDigits 16 places.reverse = n ∧ digits = places.map Nat.digitChar

theorem ofDigits_range (n width : Nat) :
    Nat.ofDigits 16 ((List.range width).map fun place => n / 16 ^ place % 16) =
      n % 16 ^ width := by
  induction width with
  | zero => simp [Nat.mod_one]
  | succ width ih =>
    rw [List.range_succ, List.map_append, Nat.ofDigits_append, ih, List.length_map,
      List.length_range, List.map_singleton, Nat.ofDigits_singleton, Nat.mod_pow_succ]

theorem spellsHex_hexDigits {width n : Nat} (h : n < 16 ^ width) :
    SpellsHex width n (hexDigits width n) := by
  refine ⟨(List.range width).reverse.map fun place => n / 16 ^ place % 16, by simp, ?_, ?_, ?_⟩
  · exact List.forall_mem_map.mpr fun _ _ => Nat.mod_lt _ (by decide)
  · rw [List.map_reverse, List.reverse_reverse, ofDigits_range, Nat.mod_eq_of_lt h]
  · rw [List.map_map]
    rfl

/-- How a character stands between quotes: as it is, behind a backslash, or as a code of the
least width that its number has room in. -/
inductive Escapes (quote : Char) : Char → List Char → Prop
  | same {c : Char} (hprintable : isPrintable c = true) (hquote : c ≠ quote) (hslash : c ≠ '\\') :
      Escapes quote c [c]
  | marked {c : Char} (h : c = quote ∨ c = '\\') : Escapes quote c ['\\', c]
  | named {c sign : Char} (h : (c, sign) ∈ [('\n', 'n'), ('\r', 'r'), ('\t', 't')]) :
      Escapes quote c ['\\', sign]
  | coded {c sign : Char} {width : Nat} {digits : List Char} (hnot : isPrintable c = false)
      (hunnamed : c ∉ ['\n', '\r', '\t']) (hsign : (sign, width) ∈ [('x', 2), ('u', 4), ('U', 8)])
      (hleast : ∀ w ∈ [2, 4, 8], c.toNat < 16 ^ w → width ≤ w)
      (hdigits : SpellsHex width c.toNat digits) : Escapes quote c ('\\' :: sign :: digits)

theorem toNat_lt_pow (c : Char) : c.toNat < 16 ^ 8 :=
  Nat.lt_of_lt_of_le c.val.toNat_lt (by decide)

theorem escapes_escaped (quote c : Char) : Escapes quote c (escaped quote c) := by
  unfold escaped
  split_ifs with hmarked hfeed hreturn htab hprintable hbyte hplane
  · exact .marked hmarked
  · exact .named (by simp [hfeed])
  · exact .named (by simp [hreturn])
  · exact .named (by simp [htab])
  · rw [not_or] at hmarked
    exact .same hprintable hmarked.1 hmarked.2
  all_goals
    have hnot : isPrintable c = false := Bool.eq_false_iff.mpr hprintable
    have hunnamed : c ∉ ['\n', '\r', '\t'] := by simp [hfeed, hreturn, htab]
  · exact .coded hnot hunnamed (by decide) (by simp) (spellsHex_hexDigits hbyte)
  · exact .coded hnot hunnamed (by decide) (by simp [hbyte]) (spellsHex_hexDigits hplane)
  · exact .coded hnot hunnamed (by decide) (by simp [hbyte, hplane])
      (spellsHex_hexDigits (toNat_lt_pow c))

/-- A text in quotes. They are single, unless the text has single quotes and no double one. -/
def Quotes (text shown : String) : Prop :=
  ∃ quote pieces, quote = (if '\'' ∈ text.toList ∧ '"' ∉ text.toList then '"' else '\'') ∧
    List.Forall₂ (Escapes quote) text.toList pieces ∧
    shown.toList = quote :: pieces.flatten ++ [quote]

/-- Texts in quotes, as a tuple. -/
inductive QuotesAll : List String → String → Prop
  | none : QuotesAll [] "()"
  | one {text shown : String} (h : Quotes text shown) : QuotesAll [text] ("(" ++ shown ++ ",)")
  | more {texts shown : List String} (hmore : 2 ≤ texts.length)
      (h : List.Forall₂ Quotes texts shown) : QuotesAll texts ("(" ++ ", ".intercalate shown ++ ")")

theorem quotes_quoted (text : String) : Quotes text (quoted text) := by
  refine ⟨quoteFor text.toList, text.toList.map (escaped (quoteFor text.toList)), rfl, ?_, ?_⟩
  · rw [List.forall₂_map_right_iff, List.forall₂_same]
    exact fun c _ => escapes_escaped _ c
  · rw [quoted, String.toList_ofList, quotedChars, List.flatMap_def]

theorem quotesAll_quotedTuple : ∀ texts : List String, QuotesAll texts (quotedTuple texts)
  | [] => .none
  | [text] => .one (quotes_quoted text)
  | first :: second :: rest => by
    refine .more (by simp) ?_
    rw [List.forall₂_map_right_iff, List.forall₂_same]
    exact fun text _ => quotes_quoted text

end Text

/-! ## Records -/

/-- What a definition reads in one line. -/
inductive Definition.Reads : Definition → String → Prop
  | atomic (size alignment : Int) :
      Reads (.atomic size alignment)
        ("Atomic[" ++ toString size ++ ", " ++ toString alignment ++ "]")
  | struct (members : List String) :
      Reads (.struct members) ("Struct[" ++ ", ".intercalate members ++ "]")
  | union (variants : List String) :
      Reads (.union variants) ("Union[" ++ ", ".intercalate variants ++ "]")

/-- What an action reads in one line. -/
inductive Action.Reads : Action → String → Prop
  | exit : Reads .exit "Exit()"
  | describe {name shown : String} (hname : Quotes name shown) :
      Reads (.describe name) ("Describe(name=" ++ shown ++ ")")
  | addAtomic {name shown : String} (hname : Quotes name shown) (size alignment : Int) :
      Reads (.addAtomic name size alignment) ("AddAtomic(name=" ++ shown ++ ", representation=" ++
        toString size ++ ", alignment=" ++ toString alignment ++ ")")
  | addStruct {name shown tuple : String} {members : List String} (hname : Quotes name shown)
      (hmembers : QuotesAll members tuple) :
      Reads (.addStruct name members) ("AddStruct(name=" ++ shown ++ ", members=" ++ tuple ++ ")")
  | addUnion {name shown tuple : String} {variants : List String} (hname : Quotes name shown)
      (hvariants : QuotesAll variants tuple) :
      Reads (.addUnion name variants) ("AddUnion(name=" ++ shown ++ ", variants=" ++ tuple ++ ")")

/-- What a record reads as a line of the log. -/
inductive Record.Reads : Record → String → Prop
  | registered {name text : String} {d : Definition} (hd : d.Reads text) :
      Reads (.registered name d) ("[DEBUG] Registered type " ++ (name ++ " = " ++ text))
  | ordered {members ordering : List String} {text tuple : String}
      (hmembers : (Definition.struct members).Reads text) (hordering : QuotesAll ordering tuple)
      (size : Int) :
      Reads (.ordered members ordering size) ("[DEBUG] Optimal ordering of " ++
        (text ++ " is " ++ tuple ++ " with size " ++ toString size))
  | executing {action : Action} {text : String} (haction : action.Reads text) :
      Reads (.executing action) ("[DEBUG] Executing " ++ text)
  | attempting (value : Datum) : Reads (.attempting value) ("[DEBUG] Executing " ++ value.plain)
  | rejected {line shown : String} (message : String) (hline : Quotes line shown) :
      Reads (.rejected line message) ("[INFO] Rejected " ++ (shown ++ ": " ++ message))

theorem Definition.reads_text (d : Definition) : d.Reads d.text := by
  cases d with
  | atomic size alignment =>
    change Reads _ ("Atomic[" ++ String.ofList (numeral size) ++ ", " ++
      String.ofList (numeral alignment) ++ "]")
    rw [ofList_numeral, ofList_numeral]
    exact .atomic size alignment
  | struct members => exact .struct members
  | union variants => exact .union variants

theorem Action.reads_text (action : Action) : action.Reads action.text := by
  cases action with
  | exit => exact .exit
  | describe name => exact .describe (quotes_quoted name)
  | addAtomic name size alignment =>
    change Reads _ ("AddAtomic(name=" ++ quoted name ++ ", representation=" ++
      String.ofList (numeral size) ++ ", alignment=" ++ String.ofList (numeral alignment) ++ ")")
    rw [ofList_numeral, ofList_numeral]
    exact .addAtomic (quotes_quoted name) size alignment
  | addStruct name members =>
    exact .addStruct (quotes_quoted name) (quotesAll_quotedTuple members)
  | addUnion name variants =>
    exact .addUnion (quotes_quoted name) (quotesAll_quotedTuple variants)

namespace Record

theorem line_of_text (level : Level) (front : String) {record : Record} {rest label : String}
    (hlevel : record.level = level) (htext : record.text = front ++ rest)
    (hlabel : "[" ++ level.word ++ "] " ++ front = label) : record.line = label ++ rest := by
  rw [line, hlevel, htext, ← String.append_assoc, hlabel]

theorem line_registered (name : String) (d : Definition) :
    line (.registered name d) = "[DEBUG] Registered type " ++ (name ++ " = " ++ d.text) := by
  refine line_of_text .debug "Registered type " rfl ?_ (by decide)
  change "Registered type " ++ name ++ " = " ++ d.text = _
  simp only [String.append_assoc]

theorem line_ordered (members ordering : List String) (size : Int) :
    line (.ordered members ordering size) = "[DEBUG] Optimal ordering of " ++
      ((Definition.struct members).text ++ " is " ++ quotedTuple ordering ++ " with size " ++
        toString size) := by
  refine line_of_text .debug "Optimal ordering of " rfl ?_ (by decide)
  rw [← ofList_numeral]
  change "Optimal ordering of " ++ (Definition.struct members).text ++ " is " ++
    quotedTuple ordering ++ " with size " ++ String.ofList (numeral size) = _
  simp only [String.append_assoc]

theorem line_executing (action : Action) :
    line (.executing action) = "[DEBUG] Executing " ++ action.text :=
  line_of_text .debug "Executing " rfl rfl (by decide)

theorem line_attempting (value : Datum) :
    line (.attempting value) = "[DEBUG] Executing " ++ value.plain :=
  line_of_text .debug "Executing " rfl rfl (by decide)

theorem line_rejected (refused message : String) :
    line (.rejected refused message) =
      "[INFO] Rejected " ++ (quoted refused ++ ": " ++ message) := by
  refine line_of_text .info "Rejected " rfl ?_ (by decide)
  change "Rejected " ++ quoted refused ++ ": " ++ message = _
  simp only [String.append_assoc]

theorem reads_line (record : Record) : record.Reads record.line := by
  cases record with
  | registered name d =>
    rw [line_registered]
    exact .registered d.reads_text
  | ordered members ordering size =>
    rw [line_ordered]
    exact .ordered (Definition.reads_text _) (quotesAll_quotedTuple ordering) size
  | executing action =>
    rw [line_executing]
    exact .executing action.reads_text
  | attempting value =>
    rw [line_attempting]
    exact .attempting value
  | rejected refused message =>
    rw [line_rejected]
    exact .rejected message (quotes_quoted refused)

end Record

end DataLayout
