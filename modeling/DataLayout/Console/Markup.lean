-- Text with tags in square brackets that set its style. A backslash before a tag takes its meaning
-- away, and two of them are one backslash. A code between colons may stand for a picture. The
-- rules are those of `escape` and `render` of rich 14.3.
import DataLayout.Console.Style
import DataLayout.Text.Blank

namespace DataLayout.Console.Markup

/-! ## Tags -/

/-- The characters that a tag may start with: small letters and three signs. -/
def startsTag (c : Char) : Bool :=
  ('a' ≤ c && c ≤ 'z') || c == '#' || c == '/' || c == '@'

/-- Reads on in a tag up to its closing bracket. No opening bracket may come before. -/
def tagRest? : List Char → Option (List Char × List Char)
  | [] => none
  | ']' :: rest => some ([], rest)
  | '[' :: _ => none
  | c :: rest => (tagRest? rest).map fun (body, after) => (c :: body, after)

/-- The words of a tag, and the text behind it, when the text behind an opening bracket is
a tag. -/
def tag? : List Char → Option (List Char × List Char)
  | c :: rest =>
    if startsTag c then (tagRest? rest).map fun (body, after) => (c :: body, after) else none
  | [] => none

theorem length_tagRest? {text body after : List Char} (h : tagRest? text = some (body, after)) :
    after.length < text.length := by
  induction text generalizing body after with
  | nil => simp [tagRest?] at h
  | cons c rest ih =>
    by_cases hc : c = ']'
    · subst hc
      simp only [tagRest?, Option.some.injEq, Prod.mk.injEq] at h
      obtain ⟨_, rfl⟩ := h
      simp
    · by_cases ho : c = '['
      · subst ho
        simp [tagRest?] at h
      · rw [tagRest?.eq_4 _ _ hc ho] at h
        simp only [Option.map_eq_some_iff, Prod.mk.injEq] at h
        obtain ⟨⟨b, a⟩, hr, _, rfl⟩ := h
        have := ih hr
        simp only [List.length_cons]
        omega

theorem length_tag? {text body after : List Char} (h : tag? text = some (body, after)) :
    after.length < text.length := by
  cases text with
  | nil => simp [tag?] at h
  | cons c rest =>
    by_cases hc : startsTag c
    · simp only [tag?, hc, ↓reduceIte, Option.map_eq_some_iff, Prod.mk.injEq] at h
      obtain ⟨⟨b, a⟩, hr, _, rfl⟩ := h
      have := length_tagRest? hr
      simp only [List.length_cons]
      omega
    · simp [tag?, hc] at h

/-! ## Pieces -/

/-- A piece of text: characters without a tag, or a tag with the number of backslashes
that stand right before it. -/
inductive Piece
  | text (chars : List Char)
  | tag (backslashes : Nat) (words : List Char)
  deriving DecidableEq

/-- One more character before the pieces. -/
def pushChar (c : Char) : List Piece → List Piece
  | .text chars :: rest => .text (c :: chars) :: rest
  | pieces => .text [c] :: pieces

/-- One more backslash before the pieces. Before a tag it counts. -/
def pushBackslash : List Piece → List Piece
  | .tag n words :: rest => .tag (n + 1) words :: rest
  | pieces => pushChar '\\' pieces

/-- The pieces of a text. -/
def pieces : List Char → List Piece
  | [] => []
  | c :: rest =>
    if c = '\\' then pushBackslash (pieces rest)
    else if c = '[' then
      match h : tag? rest with
      | some (words, after) =>
        have := length_tag? h
        .tag 0 words :: pieces after
      | none => pushChar '[' (pieces rest)
    else pushChar c (pieces rest)
termination_by text => text.length

/-! ## Escaping -/

def escapePiece : Piece → List Char
  | .text chars => chars
  | .tag n words => List.replicate (2 * n + 1) '\\' ++ '[' :: words ++ [']']

/-- One more backslash behind a text that ends in a single one. -/
def closeBackslash (text : List Char) : List Char :=
  match text.reverse with
  | '\\' :: '\\' :: _ => text
  | '\\' :: _ => text ++ ['\\']
  | _ => text

/-- The text that stands for `text` between tags. -/
def escape (text : List Char) : List Char := closeBackslash ((pieces text).flatMap escapePiece)

/-! ## Pictures -/

/-- The pictures that stand for codes, which are words between colons. No bracket and no
backslash is in a code. -/
structure Pictures where
  draw? : List Char → Option (List Char)
  bare : ∀ word, (draw? word).isSome = true → '[' ∉ word ∧ ']' ∉ word ∧ '\\' ∉ word

namespace Pictures

/-- No code stands for a picture. -/
def none : Pictures := ⟨fun _ => Option.none, fun _ h => by cases h⟩

/-- Reads on in a text, behind a colon and the characters `held` if there are any. A code is the
text up to the next colon, if no blank comes before. -/
def drawFrom (pictures : Pictures) : Option (List Char) → List Char → List Char
  | Option.none, [] => []
  | some held, [] => ':' :: held
  | Option.none, c :: rest =>
    if c = ':' then drawFrom pictures (some []) rest else c :: drawFrom pictures Option.none rest
  | some held, c :: rest =>
    if c = ':' then
      (pictures.draw? held).getD (':' :: (held ++ [':'])) ++ drawFrom pictures Option.none rest
    else if Text.isBlank c then ':' :: (held ++ c :: drawFrom pictures Option.none rest)
    else drawFrom pictures (some (held ++ [c])) rest

/-- A text with pictures in the places of their codes. -/
def drawn (pictures : Pictures) (text : List Char) : List Char :=
  drawFrom pictures Option.none text

end Pictures

/-! ## Rendering -/

/-- A backslash before a bracket that starts no tag goes away. -/
def openBrackets : List Char → List Char
  | '\\' :: '[' :: rest => '[' :: openBrackets rest
  | c :: rest => c :: openBrackets rest
  | [] => []

/-- The style that the words of a tag set. Words that mean nothing set none. -/
def styleOf (words : List Char) : Style :=
  match String.ofList words with
  | "bold" => .bold
  | "italic" => .italic
  | "red" => .colored .red
  | "green" => .colored .green
  | "magenta" => .colored .magenta
  | "bold red" => .boldColored .red
  | "bold green" => .boldColored .green
  | "bold magenta" => .boldColored .magenta
  | _ => .plain

/-- The styles in use, the innermost first, as one style. -/
def combined (styles : List Style) : Style := styles.foldr Style.atop .plain

/-- Characters before a line. They join a run that no tag parts from them. -/
def before (chars : List Char) (style : Style) (joined : Bool) (line : Line) : Line :=
  match joined, line with
  | true, r :: rest => { r with text := chars ++ r.text } :: rest
  | _, line => ⟨chars, style⟩ :: line

/-- Renders pieces within the styles in use. The flag says whether the line starts with a
run that no tag parts from what stands before it. -/
def renderPieces (pictures : Pictures) (styles : List Style) : List Piece → Bool × Line
  | [] => (false, [])
  | .text chars :: rest =>
    let (joined, line) := renderPieces pictures styles rest
    (true, before (pictures.drawn (openBrackets chars)) (combined styles) joined line)
  | .tag n words :: rest =>
    let literal := List.replicate (n / 2) '\\'
    if n % 2 = 1 then
      let (joined, line) := renderPieces pictures styles rest
      let tag := pictures.drawn ('[' :: words ++ [']'])
      (true, before (literal ++ tag) (combined styles) joined line)
    else
      let inner :=
        match words with
        | '/' :: _ => styles.tail
        | _ => styleOf words :: styles
      let (_, line) := renderPieces pictures inner rest
      if n = 0 then (false, line) else (true, before literal (combined styles) false line)

/-- The line that a text with tags stands for. A closing tag ends the innermost style. -/
def render (pictures : Pictures) (text : List Char) : Line :=
  (renderPieces pictures [] (pieces text)).2

end DataLayout.Console.Markup
