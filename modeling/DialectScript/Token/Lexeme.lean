import DialectScript.Token

/-!
# Lexemes

`Lexeme.first?` cuts the longest lexeme off the head of a text, before any word is looked up in
a dialect. White space counts as a lexeme of its own, and a quote that is never closed takes
everything up to the end.

Nothing is lost and every cut makes progress: `Lexeme.chars_append_rest` and
`Lexeme.rest_length_lt`.
-/

namespace DialectScript

/-- The form of a lexeme. -/
inductive Shape where
  | blank
  | word
  | number
  | string
  | openString
  | symbol (kind : Kind)
deriving DecidableEq

/-- A lexeme at the head of a text, and the text that follows it. -/
structure Lexeme where
  shape : Shape
  chars : List Char
  rest : List Char
deriving DecidableEq

namespace Lexeme

/-- The characters that separate tokens. -/
def isBlank (c : Char) : Bool :=
  c == ' ' || c == '\t' || c == '\r' || c == '\n'

/-- The symbols of two characters. -/
def pairSymbol? : Char → Char → Option Kind
  | '=', '=' => some .equalEqual
  | '!', '=' => some .notEqual
  | '<', '=' => some .lessEqual
  | '>', '=' => some .greaterEqual
  | '&', '&' => some .andAnd
  | '|', '|' => some .orOr
  | _, _ => none

/-- The symbols of one character. -/
def singleSymbol? : Char → Option Kind
  | '(' => some .leftParen
  | ')' => some .rightParen
  | '\x7b' => some .leftBrace
  | '\x7d' => some .rightBrace
  | '[' => some .leftBracket
  | ']' => some .rightBracket
  | ',' => some .comma
  | ':' => some .colon
  | '.' => some .dot
  | ';' => some .semicolon
  | '=' => some .equals
  | '+' => some .plus
  | '-' => some .minus
  | '*' => some .star
  | '/' => some .slash
  | '%' => some .percent
  | '<' => some .less
  | '>' => some .greater
  | _ => none

/-- The longest symbol at the head of a text. -/
def symbol? : List Char → Option Lexeme
  | [] => none
  | [c] => (singleSymbol? c).map fun kind => ⟨.symbol kind, [c], []⟩
  | c :: d :: cs =>
    match pairSymbol? c d with
    | some kind => some ⟨.symbol kind, [c, d], cs⟩
    | none => (singleSymbol? c).map fun kind => ⟨.symbol kind, [c], d :: cs⟩

/-- The longest run of characters of one class. -/
def run (shape : Shape) (p : Char → Bool) (cs : List Char) : Lexeme :=
  ⟨shape, cs.takeWhile p, cs.dropWhile p⟩

/-- The string literal whose opening quote stood before the given text. -/
def quoted (cs : List Char) : Lexeme :=
  match cs.dropWhile (· != '"') with
  | [] => ⟨.openString, '"' :: cs, []⟩
  | q :: rest => ⟨.string, '"' :: cs.takeWhile (· != '"') ++ [q], rest⟩

/-- The longest lexeme at the head of a text; none if no lexeme starts there. -/
def first? : List Char → Option Lexeme
  | [] => none
  | c :: cs =>
    if isBlank c then some (run .blank isBlank (c :: cs))
    else if c.isAlpha then some (run .word Char.isAlpha (c :: cs))
    else if c.isDigit then some (run .number Char.isDigit (c :: cs))
    else if c == '"' then some (quoted cs)
    else symbol? (c :: cs)

/-! ## Nothing is lost -/

theorem run_chars_append_rest (shape : Shape) (p : Char → Bool) (cs : List Char) :
    (run shape p cs).chars ++ (run shape p cs).rest = cs :=
  List.takeWhile_append_dropWhile

theorem quoted_chars_append_rest (cs : List Char) :
    (quoted cs).chars ++ (quoted cs).rest = '"' :: cs := by
  unfold quoted
  split
  · simp
  · next q rest h =>
    have := List.takeWhile_append_dropWhile (p := (· != '"')) (l := cs)
    rw [h] at this
    simp [this]

theorem symbol?_chars_append_rest {cs : List Char} {l : Lexeme} (h : symbol? cs = some l) :
    l.chars ++ l.rest = cs := by
  match cs with
  | [] => simp [symbol?] at h
  | [c] =>
    simp only [symbol?, Option.map_eq_some_iff] at h
    obtain ⟨kind, -, rfl⟩ := h
    rfl
  | c :: d :: cs =>
    simp only [symbol?] at h
    split at h
    · cases h
      rfl
    · simp only [Option.map_eq_some_iff] at h
      obtain ⟨kind, -, rfl⟩ := h
      rfl

/-- A lexeme followed by what it leaves is the text it was cut from. -/
theorem chars_append_rest {cs : List Char} {l : Lexeme} (h : first? cs = some l) :
    l.chars ++ l.rest = cs := by
  match cs with
  | [] => simp [first?] at h
  | c :: cs =>
    simp only [first?] at h
    split at h
    · cases h
      exact run_chars_append_rest ..
    split at h
    · cases h
      exact run_chars_append_rest ..
    split at h
    · cases h
      exact run_chars_append_rest ..
    split at h
    · next hq =>
      cases h
      rw [quoted_chars_append_rest]
      simp_all
    · exact symbol?_chars_append_rest h

/-! ## Every cut makes progress -/

theorem symbol?_chars_ne_nil {cs : List Char} {l : Lexeme} (h : symbol? cs = some l) :
    l.chars ≠ [] := by
  match cs with
  | [] => simp [symbol?] at h
  | [c] =>
    simp only [symbol?, Option.map_eq_some_iff] at h
    obtain ⟨kind, -, rfl⟩ := h
    simp
  | c :: d :: cs =>
    simp only [symbol?] at h
    split at h
    · cases h
      simp
    · simp only [Option.map_eq_some_iff] at h
      obtain ⟨kind, -, rfl⟩ := h
      simp

theorem run_chars_ne_nil (shape : Shape) {p : Char → Bool} {c : Char} (cs : List Char)
    (h : p c = true) : (run shape p (c :: cs)).chars ≠ [] := by
  simp [run, h]

theorem quoted_chars_ne_nil (cs : List Char) : (quoted cs).chars ≠ [] := by
  unfold quoted
  split <;> simp

theorem chars_ne_nil {cs : List Char} {l : Lexeme} (h : first? cs = some l) : l.chars ≠ [] := by
  match cs with
  | [] => simp [first?] at h
  | c :: cs =>
    simp only [first?] at h
    split at h
    · next hc =>
      cases h
      exact run_chars_ne_nil _ _ hc
    split at h
    · next hc =>
      cases h
      exact run_chars_ne_nil _ _ hc
    split at h
    · next hc =>
      cases h
      exact run_chars_ne_nil _ _ hc
    split at h
    · cases h
      exact quoted_chars_ne_nil _
    · exact symbol?_chars_ne_nil h

/-- What a lexeme leaves is shorter than the text it was cut from. -/
theorem rest_length_lt {cs : List Char} {l : Lexeme} (h : first? cs = some l) :
    l.rest.length < cs.length := by
  have hpos : 0 < l.chars.length := List.length_pos_iff.2 (chars_ne_nil h)
  rw [← chars_append_rest h, List.length_append]
  omega

end Lexeme

end DialectScript
