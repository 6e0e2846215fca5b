import DialectScript.Dialect
import DialectScript.Text.Bytes
import DialectScript.Token.Lexeme

/-!
# Scanning a source into tokens

`tokenize` scans a source under a dialect. The scan goes in segments: `segment` reads up to the
end of the source, to the first character that starts no lexeme, or to a switch word. A switch
word ends its segment without tokens, and scanning starts afresh behind it under the target
dialect, so only the last segment's tokens are ever seen.
-/

namespace DialectScript

/-- Why a source has no tokens. -/
inductive LexicalCause where
  | unexpectedCharacter (c : Char)
  | unterminatedString
deriving DecidableEq

/-- The wording of a lexical cause. -/
def LexicalCause.message : LexicalCause → String
  | .unexpectedCharacter c => s!"unexpected character `{c}`"
  | .unterminatedString => "unterminated string literal"

/-- A failed scan: the cause and where it stands. -/
structure LexicalError where
  cause : LexicalCause
  span : Span
deriving DecidableEq

namespace Token

/-- How the scan of one segment ends. -/
inductive Segment where
  /-- The end of the source was reached; the tokens end with the end marker. -/
  | finished (tokens : List Token)
  | failed (error : LexicalError)
  /-- A switch word was met; `rest` follows it at byte `offset`. -/
  | switched (target : Dialect) (offset : Nat) (rest : List Char)

/-- A segment with a token put in front of its tokens. -/
def Segment.cons (t : Token) : Segment → Segment
  | .finished tokens => .finished (t :: tokens)
  | .failed error => .failed error
  | .switched target offset rest => .switched target offset rest

/-- Scan to the end of the source, the first error or the first switch word. The text stands at
byte `offset` of the source. -/
def segment (d : Dialect) (offset : Nat) (cs : List Char) : Segment :=
  match _ : Lexeme.first? cs with
  | none =>
    match cs with
    | [] => .finished [endOfInput (Span.clamp offset)]
    | c :: _ => .failed ⟨.unexpectedCharacter c, .ofRange offset (offset + c.utf8Size)⟩
  | some l =>
    let stop := offset + Text.byteLength l.chars
    let span := Span.ofRange offset stop
    match l.shape with
    | .blank => segment d stop l.rest
    | .openString => .failed ⟨.unterminatedString, span⟩
    | .string =>
      (segment d stop l.rest).cons ⟨.string, .ofList (l.chars.drop 1).dropLast, span⟩
    | .number => (segment d stop l.rest).cons ⟨.number, .ofList l.chars, span⟩
    | .symbol kind => (segment d stop l.rest).cons ⟨kind, .ofList l.chars, span⟩
    | .word =>
      match d.classify l.chars with
      | .switch target => .switched target stop l.rest
      | .keyword kind => (segment d stop l.rest).cons ⟨kind, .ofList l.chars, span⟩
      | .identifier => (segment d stop l.rest).cons ⟨.identifier, .ofList l.chars, span⟩
termination_by cs.length
decreasing_by all_goals exact Lexeme.rest_length_lt ‹_›

theorem Segment.cons_eq_switched {t : Token} {s : Segment} {target : Dialect} {offset : Nat}
    {rest : List Char} (h : s.cons t = .switched target offset rest) :
    s = .switched target offset rest := by
  cases s <;> simp_all [Segment.cons]

/-- A switch leaves less to scan. -/
theorem segment_switched_length_lt {d target : Dialect} {offset offset' : Nat}
    {cs rest : List Char} (h : segment d offset cs = .switched target offset' rest) :
    rest.length < cs.length := by
  fun_induction segment d offset cs with
  | case1 => simp at h
  | case2 => simp at h
  | case3 _ _ _ hl _ _ ih => exact Nat.lt_trans (ih h) (Lexeme.rest_length_lt hl)
  | case4 => simp at h
  | case5 _ _ _ hl _ _ _ ih =>
    exact Nat.lt_trans (ih (Segment.cons_eq_switched h)) (Lexeme.rest_length_lt hl)
  | case6 _ _ _ hl _ _ _ ih =>
    exact Nat.lt_trans (ih (Segment.cons_eq_switched h)) (Lexeme.rest_length_lt hl)
  | case7 _ _ _ hl _ _ _ _ ih =>
    exact Nat.lt_trans (ih (Segment.cons_eq_switched h)) (Lexeme.rest_length_lt hl)
  | case8 _ _ _ hl =>
    simp only [Segment.switched.injEq] at h
    obtain ⟨-, -, rfl⟩ := h
    exact Lexeme.rest_length_lt hl
  | case9 _ _ _ hl _ _ _ _ _ ih =>
    exact Nat.lt_trans (ih (Segment.cons_eq_switched h)) (Lexeme.rest_length_lt hl)
  | case10 _ _ _ hl _ _ _ _ ih =>
    exact Nat.lt_trans (ih (Segment.cons_eq_switched h)) (Lexeme.rest_length_lt hl)

/-- Scan a text that stands at byte `offset` of its source, starting afresh behind every
switch word. -/
def scanFrom (d : Dialect) (offset : Nat) (cs : List Char) : Except LexicalError (List Token) :=
  match _ : segment d offset cs with
  | .finished tokens => .ok tokens
  | .failed error => .error error
  | .switched target offset' rest => scanFrom target offset' rest
termination_by cs.length
decreasing_by exact segment_switched_length_lt ‹_›

end Token

/-- The tokens of a source, scanned from the given dialect on; the end marker comes last. -/
def tokenize (d : Dialect) (source : String) : Except LexicalError (List Token) :=
  Token.scanFrom d 0 source.toList

end DialectScript
