import Mathlib
import DialectScript.Proofs.LetterCase
import DialectScript.Proofs.Respelling
import DialectScript.Proofs.Tiling

/-!
# Tokens with white space between them

Tokens are laid out by writing one after another, with white space between them where one likes
(`Dialect.Laid`). It is needed between two tokens that would be scanned as one, or be divided
elsewhere (`Kind.Glues`): between two words, between two numbers, and between `=`, `<` or `>` and a
token that begins with `=`.

**Theorem (`tokenize_laid`).** Tokens that are laid out are scanned as these tokens. White space is
needed nowhere else: without it, the first of two tokens that glue would not end where it does.

A text that a form allows is a lexeme if no form goes on with the next character
(`Lexeme.first?_of_not_extends`). No form goes on behind a string, and the others go on with a
character of their own class, or with the second character of a symbol. So whether a token goes on
with the first character of the next one can be seen from the kinds of the two
(`Lexeme.extends_iff_glues`).
-/

namespace DialectScript

open Lexeme

/-! ## Tokens that are written -/

/-- The token may be written under the dialect: a keyword in letters of either case, an identifier
of letters that is neither a keyword nor the switch word, a number of digits, a string without a
quote, and a symbol. The end marker is not written. -/
inductive Dialect.Allows (d : Dialect) : Kind → String → Prop
  | keyword {entry : String × Kind} {text : String} :
      entry ∈ d.keywords → Word.spells text.toList entry.1 = true → Allows d entry.2 text
  | identifier {text : String} :
      text.toList ≠ [] → (∀ c ∈ text.toList, c.isAlpha = true) →
      Word.spells text.toList d.switchWord = false →
      (∀ entry ∈ d.keywords, Word.spells text.toList entry.1 = false) → Allows d .identifier text
  | number {text : String} :
      text.toList ≠ [] → (∀ c ∈ text.toList, c.isDigit = true) → Allows d .number text
  | string {text : String} : '"' ∉ text.toList → Allows d .string text
  | symbol {kind : Kind} {text : String} :
      (kind, text.toList) ∈ Kind.symbols → Allows d kind text

namespace Kind

/-- Tokens of the kind are runs of letters. -/
def isWord (kind : Kind) : Bool := kind.isKeyword || kind == .identifier

/-- White space is needed between a token of the first kind and one of the second. -/
def Glues (kind kind' : Kind) : Prop :=
  (kind.isWord = true ∧ kind'.isWord = true) ∨ (kind = .number ∧ kind' = .number) ∨
    (kind ∈ [.equals, .less, .greater] ∧ kind' ∈ [.equals, .equalEqual])

instance (kind kind' : Kind) : Decidable (kind.Glues kind') := inferInstanceAs (Decidable (_ ∨ _))

end Kind

/-- The text is that of the tokens, one after another, with white space before each and at the end.
There is some between two tokens that glue. -/
inductive Dialect.Laid (d : Dialect) : List Token → List Char → Prop
  | last {blanks : List Char} : (∀ c ∈ blanks, isBlank c = true) → Laid d [] blanks
  | token {blanks cs : List Char} {t : Token} {ts : List Token} :
      (∀ c ∈ blanks, isBlank c = true) → d.Allows t.kind t.text → Laid d ts cs →
      (∀ u ∈ ts.head?, t.kind.Glues u.kind → ∃ c ∈ cs.head?, isBlank c = true) →
      Laid d (t :: ts) (blanks ++ (t.written ++ cs))

/-! ## What goes on -/

namespace Shape

variable {shape shape' : Shape} {p : Char → Bool} {c : Char} {cs : List Char}

/-- The class of characters of which lexemes of the form are runs. -/
def runs? : Shape → Option (Char → Bool)
  | .blank => some isBlank
  | .word => some Char.isAlpha
  | .number => some Char.isDigit
  | _ => none

theorem matches_run_iff (h : shape.runs? = some p) :
    shape.Matches cs ↔ cs ≠ [] ∧ ∀ c ∈ cs, p c = true := by
  cases shape with
  | blank | word | number =>
    cases h
    constructor
    · rintro (⟨hne, hall⟩ | ⟨hne, hall⟩ | ⟨hne, hall⟩)
      exact ⟨hne, hall⟩
    · rintro ⟨hne, hall⟩
      first
      | exact .blank hne hall
      | exact .word hne hall
      | exact .number hne hall
  | string | openString | symbol _ => cases h

/-- A form that starts with a character of the class is the form of its runs. -/
theorem Starts.eq_run (hstarts : shape'.Starts c) (h : shape.runs? = some p) (hc : p c = true) :
    shape' = shape := by
  cases shape with
  | blank => cases h; exact hstarts.eq_blank hc
  | word => cases h; exact hstarts.eq_word hc
  | number => cases h; exact hstarts.eq_number hc
  | string | openString | symbol _ => cases h

end Shape

namespace Lexeme

variable {d : Dialect} {shape shape' : Shape} {chars cs rest more : List Char} {c : Char}
variable {kind kind' : Kind} {p : Char → Bool}

/-- Some form goes on behind the text with the character. -/
def Extends (chars : List Char) (c : Char) : Prop := ∃ shape : Shape, shape.Matches (chars ++ [c])

/-- What goes on behind a run is a longer run. -/
theorem matches_of_run (h : shape.runs? = some p) (hm : shape.Matches chars)
    (hm' : shape'.Matches (chars ++ more)) : shape.Matches (chars ++ more) := by
  obtain ⟨hne, hall⟩ := (Shape.matches_run_iff h).1 hm
  obtain ⟨first, others, rfl⟩ := List.exists_cons_of_ne_nil hne
  rw [List.cons_append] at hm' ⊢
  rwa [← hm'.starts.eq_run h (hall first List.mem_cons_self)]

theorem extends_run_iff (h : shape.runs? = some p) (hm : shape.Matches chars) :
    Extends chars c ↔ p c = true := by
  constructor
  · rintro ⟨shape', hm'⟩
    exact ((Shape.matches_run_iff h).1 (matches_of_run h hm hm')).2 c (by simp)
  · intro hc
    obtain ⟨hne, hall⟩ := (Shape.matches_run_iff h).1 hm
    refine ⟨shape, (Shape.matches_run_iff h).2 ⟨by simp, fun c' hmem => ?_⟩⟩
    obtain hmem | hmem := List.mem_append.1 hmem
    · exact hall c' hmem
    · rwa [List.mem_singleton.1 hmem]

/-- Behind its second quote, nothing goes on with a string. -/
theorem not_matches_string {body : List Char} (hbody : '"' ∉ body) :
    ¬ shape.Matches ('"' :: (body ++ ['"']) ++ c :: more) := by
  intro hm
  have hlength := @longest_quoted (body ++ '"' :: c :: more)
  rw [quoted_eq_string hbody] at hlength
  have hle := hlength.longest shape _ hm ⟨[], by simp⟩
  simp at hle

theorem symbolKind?_eq_some (hmem : (kind, chars) ∈ Kind.symbols)
    (hmem' : (kind', chars ++ c :: more) ∈ Kind.symbols) :
    ∃ a, chars = [a] ∧ more = [] ∧ singleSymbol? a = some kind ∧ pairSymbol? a c = some kind' := by
  have hne := (Shape.Matches.symbol hmem).ne_nil
  rw [mem_symbols_iff] at hmem hmem'
  match chars, more with
  | [], _ => exact absurd rfl hne
  | [a], [] => exact ⟨a, rfl, rfl, hmem, hmem'⟩
  | [_], _ :: _ => cases hmem'
  | [_, _], _ => cases hmem'
  | _ :: _ :: _ :: _, _ => cases hmem

/-- If some form goes on behind a lexeme, then one goes on with the next character only. -/
theorem extends_of_matches (hm : shape.Matches chars) (hshape : shape ≠ .openString)
    (hm' : shape'.Matches (chars ++ c :: more)) : Extends chars c := by
  have hrun {p : Char → Bool} (h : shape.runs? = some p) : Extends chars c := by
    have hall := ((Shape.matches_run_iff h).1 (matches_of_run h hm hm')).2
    exact (extends_run_iff h hm).2 (hall c (by simp))
  cases hm with
  | blank _ _ | word _ _ | number _ _ => exact hrun rfl
  | string hbody => exact absurd hm' (not_matches_string hbody)
  | openString _ => exact absurd rfl hshape
  | symbol hmem =>
    obtain ⟨first, others, rfl⟩ := List.exists_cons_of_ne_nil (Shape.Matches.symbol hmem).ne_nil
    obtain ⟨kind', rfl⟩ := hm'.starts.eq_symbol (Shape.Matches.symbol hmem).starts
    cases hm' with
    | symbol hmem' =>
      obtain ⟨a, -, rfl, -, -⟩ := symbolKind?_eq_some hmem hmem'
      exact ⟨.symbol kind', .symbol hmem'⟩

/-- A text that a form allows is cut off if no form goes on behind it. -/
theorem first?_of_not_extends (hm : shape.Matches chars) (hshape : shape ≠ .openString)
    (hnot : ∀ c ∈ rest.head?, ¬ Extends chars c) :
    first? (chars ++ rest) = some ⟨shape, chars, rest⟩ := by
  refine first?_eq_some_iff.2 ⟨hm, List.prefix_append _ _, fun shape' chars' hm' hhead => ?_⟩
  by_contra hlt
  obtain ⟨more, rfl⟩ : chars <+: chars' :=
    List.prefix_of_prefix_length_le (List.prefix_append _ rest) hhead (by omega)
  cases more with
  | nil => simp at hlt
  | cons c more =>
    obtain ⟨behind, rfl⟩ : c :: more <+: rest := (List.prefix_append_right_inj _).1 hhead
    exact hnot c rfl (extends_of_matches hm hshape hm')

/-! ## Kinds that glue -/

/-- A symbol goes on with the second character of another one. -/
theorem extends_symbol_iff (hmem : (kind, chars) ∈ Kind.symbols) :
    Extends chars c ↔ kind ∈ [.equals, .less, .greater] ∧ c = '=' := by
  constructor
  · rintro ⟨shape', hm'⟩
    obtain ⟨first, others, rfl⟩ := List.exists_cons_of_ne_nil (Shape.Matches.symbol hmem).ne_nil
    obtain ⟨kind', rfl⟩ := hm'.starts.eq_symbol (Shape.Matches.symbol hmem).starts
    cases hm' with
    | symbol hmem' =>
      obtain ⟨a, -, -, hsingle, hpair⟩ := symbolKind?_eq_some hmem hmem'
      unfold pairSymbol? at hpair
      split at hpair
      -- No symbol is a single `!`, `&` or `|`.
      all_goals first
        | cases hpair; done
        | simp [singleSymbol?] at hsingle; done
        | cases hsingle; simp
  · rintro ⟨hkind, rfl⟩
    have hall : ∀ entry ∈ Kind.symbols, entry.1 ∈ [Kind.equals, .less, .greater] →
        (symbolKind? (entry.2 ++ ['='])).isSome = true := by decide
    obtain ⟨kind', hkind'⟩ := Option.isSome_iff_exists.1 (hall _ hmem hkind)
    exact ⟨.symbol kind', .symbol (mem_symbols_iff.2 hkind')⟩

/-- The kind of a lexeme tells its form. -/
theorem shape_of_kind? (hm : shape.Matches chars) (hkind : d.kind? shape chars = some kind) :
    (kind.isWord = true ↔ shape = .word) ∧ (kind = .number ↔ shape = .number) ∧
      (kind ∈ Kind.symbols.map Prod.fst ↔ shape = .symbol kind) := by
  cases hm with
  | blank _ _ | openString _ => cases hkind
  | number _ _ | string _ =>
    cases hkind
    decide
  | symbol hmem =>
    cases hkind
    have hall : ∀ entry ∈ Kind.symbols, entry.1.isWord = false ∧ entry.1 ≠ .number := by decide
    obtain ⟨hword, hnumber⟩ := hall _ hmem
    simp only [hword, hnumber, List.mem_map_of_mem (f := Prod.fst) hmem]
    simp
  | word _ _ =>
    have hword : kind.isWord = true := by
      simp only [Dialect.kind?] at hkind
      split at hkind
      · next hkeyword =>
        cases hkind
        obtain ⟨spelling, hmem, -⟩ := Dialect.classify_eq_keyword hkeyword
        have hall : ∀ entry ∈ d.keywords, entry.2.isWord = true := by cases d <;> decide
        exact hall _ hmem
      · cases hkind
        rfl
      · cases hkind
    have hother : ∀ kind : Kind, kind.isWord = true →
        kind ≠ .number ∧ kind ∉ Kind.symbols.map Prod.fst := by
      intro kind
      cases kind <;> decide
    obtain ⟨hnumber, hsymbol⟩ := hother kind hword
    simp only [hword, hnumber, hsymbol]
    simp

/-- The kind of a lexeme tells its first character, as far as another lexeme may go on with it. -/
theorem head_of_kind? (hm : shape.Matches (c :: cs)) (hkind : d.kind? shape (c :: cs) = some kind) :
    (kind.isWord = true ↔ c.isAlpha = true) ∧ (kind = .number ↔ c.isDigit = true) ∧
      (kind ∈ [.equals, .equalEqual] ↔ c = '=') := by
  obtain ⟨hword, hnumber, hsymbol⟩ := shape_of_kind? hm hkind
  refine ⟨hword.trans ⟨?_, hm.starts.eq_word⟩, hnumber.trans ⟨?_, hm.starts.eq_number⟩, ?_, ?_⟩
  · rintro rfl
    exact hm.starts
  · rintro rfl
    exact hm.starts
  · intro hequals
    have hsub : [Kind.equals, .equalEqual] ⊆ Kind.symbols.map Prod.fst := by decide
    obtain rfl := hsymbol.1 (hsub hequals)
    cases hm with
    | symbol hmem =>
      have hall : ∀ entry ∈ Kind.symbols, entry.1 ∈ [Kind.equals, .equalEqual] →
          entry.2.head? = some '=' := by decide
      exact Option.some.inj (hall _ hmem hequals)
  · rintro rfl
    obtain ⟨kind', rfl⟩ := hm.starts.eq_symbol ⟨rfl, rfl, rfl, by decide⟩
    cases hkind
    cases hm with
    | symbol hmem =>
      have hall : ∀ entry ∈ Kind.symbols, entry.2.head? = some '=' →
          entry.1 ∈ [Kind.equals, .equalEqual] := by decide
      exact hall _ hmem rfl

/-- What a lexeme goes on with, by its kind. -/
theorem extends_iff (hm : shape.Matches chars) (hkind : d.kind? shape chars = some kind) :
    Extends chars c ↔ (kind.isWord = true ∧ c.isAlpha = true) ∨
      (kind = .number ∧ c.isDigit = true) ∨ (kind ∈ [.equals, .less, .greater] ∧ c = '=') := by
  obtain ⟨hword, hnumber, hsymbol⟩ := shape_of_kind? hm hkind
  have hsub : [Kind.equals, .less, .greater] ⊆ Kind.symbols.map Prod.fst := by decide
  have hequals (hshape : shape ≠ .symbol kind) : kind ∉ [.equals, .less, .greater] :=
    fun hmem => hshape (hsymbol.1 (hsub hmem))
  -- Runs go on with characters of their class, symbols only to other symbols.
  cases shape with
  | blank | openString => cases hkind
  | word =>
    rw [extends_run_iff rfl hm]
    simp only [hword, hnumber, hequals (by simp)]
    simp
  | number =>
    rw [extends_run_iff rfl hm]
    simp only [hword, hnumber, hequals (by simp)]
    simp
  | string =>
    have hnot : ¬ Extends chars c := by
      rintro ⟨shape', hm'⟩
      cases hm with
      | string hbody => exact not_matches_string hbody hm'
    simp only [hnot, hword, hnumber, hequals (by simp)]
    simp
  | symbol kind' =>
    cases hkind
    cases hm with
    | symbol hmem =>
      rw [extends_symbol_iff hmem]
      simp only [hword, hnumber]
      simp

/-- A lexeme goes on with the first character of another one if their kinds glue. -/
theorem extends_iff_glues (hm : shape.Matches chars) (hkind : d.kind? shape chars = some kind)
    (hm' : shape'.Matches (c :: cs)) (hkind' : d.kind? shape' (c :: cs) = some kind') :
    Extends chars c ↔ kind.Glues kind' := by
  obtain ⟨hword, hnumber, hequals⟩ := head_of_kind? hm' hkind'
  rw [extends_iff hm hkind, Kind.Glues, hword, hnumber, hequals]

example : Kind.less.Glues .equalEqual ∧ ¬ Kind.equalEqual.Glues .equals := by decide

/-- White space goes on with no token. -/
theorem not_extends_blank (hm : shape.Matches chars) (hkind : d.kind? shape chars = some kind)
    (hc : isBlank c = true) : ¬ Extends chars c := by
  obtain ⟨halpha, hdigit, -⟩ := classes_of_isBlank hc
  rw [extends_iff hm hkind, halpha, hdigit]
  rintro (⟨-, hfalse⟩ | ⟨-, hfalse⟩ | ⟨-, rfl⟩)
  · cases hfalse
  · cases hfalse
  · cases hc

end Lexeme

/-! ## Tokens that are laid out -/

/-- What a token says, without its place. -/
def Token.content (t : Token) : Kind × String := (t.kind, t.text)

namespace Dialect

variable {d : Dialect} {t u : Token} {ts : List Token} {cs : List Char} {c : Char}

/-- A token that may be written is written as a lexeme that makes it. -/
theorem Allows.exists_shape (h : d.Allows t.kind t.text) :
    ∃ shape : Shape, shape.Matches t.written ∧ d.kind? shape t.written = some t.kind ∧
      shape.text t.written = t.text := by
  obtain ⟨kind, text, span⟩ := t
  cases h with
  | @keyword entry _ hmem hspells =>
    have hwritten : Token.written ⟨entry.2, text, span⟩ = text.toList :=
      if_neg (keywords_kind entry hmem).2
    have hlower : Text.lowered text.toList = entry.1.toList := beq_iff_eq.1 hspells
    obtain ⟨hm, hkind⟩ := kind?_keyword entry hmem
    rw [← hlower] at hm hkind
    rw [kind?_lower] at hkind
    cases hm with
    | word hne hall =>
      have hletters : ∀ c ∈ text.toList, c.isAlpha = true := fun c hc => by
        rw [← Char.isAlpha_toLower_eq_isAlpha]
        exact hall _ (List.mem_map_of_mem hc)
      rw [hwritten]
      exact ⟨.word, .word (by simpa [Text.lowered] using hne) hletters, hkind, String.ofList_toList⟩
  | identifier hne hall hswitch hkeywords =>
    exact ⟨.word, .word hne hall, kind?_identifier hswitch hkeywords, String.ofList_toList⟩
  | number hne hall => exact ⟨.number, .number hne hall, rfl, String.ofList_toList⟩
  | string hbody => exact ⟨.string, .string hbody, rfl, by simp [Token.written, Shape.text]⟩
  | symbol hmem =>
    have hall : ∀ entry ∈ Kind.symbols, entry.1 ≠ .string := by decide
    have hwritten : Token.written ⟨kind, text, span⟩ = text.toList := if_neg (hall _ hmem)
    rw [hwritten]
    exact ⟨.symbol kind, .symbol hmem, rfl, String.ofList_toList⟩

/-- The first character of tokens that are laid out is white space or that of the first token. -/
theorem Laid.head (h : d.Laid ts cs) (hc : c ∈ cs.head?) : isBlank c = true ∨
    ∃ u ∈ ts.head?, d.Allows u.kind u.text ∧ ∃ others, u.written = c :: others := by
  cases h with
  | last hblanks => exact .inl (hblanks c (List.mem_of_mem_head? hc))
  | @token blanks cs u _ hblanks hallows _ _ =>
    cases blanks with
    | cons b blanks =>
      cases hc
      exact .inl (hblanks _ List.mem_cons_self)
    | nil =>
      obtain ⟨shape, hm, -⟩ := hallows.exists_shape
      obtain ⟨first, others, heq⟩ := List.exists_cons_of_ne_nil hm.ne_nil
      rw [heq] at hc
      cases hc
      exact .inr ⟨u, rfl, hallows, others, heq⟩

/-- A token that may be written does not begin with white space. -/
theorem Allows.not_isBlank (h : d.Allows t.kind t.text) {others : List Char}
    (heq : t.written = c :: others) : isBlank c = false := by
  obtain ⟨shape, hm, hkind, -⟩ := h.exists_shape
  rw [heq] at hm hkind
  exact not_isBlank_of_kind? hm hkind

/-- A token goes on with the first character of the next one if they glue. -/
theorem Allows.extends_iff (ht : d.Allows t.kind t.text) (hu : d.Allows u.kind u.text)
    {others : List Char} (heq : u.written = c :: others) :
    Extends t.written c ↔ t.kind.Glues u.kind := by
  obtain ⟨shape, hm, hkind, -⟩ := ht.exists_shape
  obtain ⟨shape', hm', hkind', -⟩ := hu.exists_shape
  rw [heq] at hm' hkind'
  exact extends_iff_glues hm hkind hm' hkind'

/-- With white space where tokens glue, no token goes on with what follows. -/
theorem Laid.not_extends (hrest : d.Laid ts cs) (ht : d.Allows t.kind t.text)
    (hgap : ∀ u ∈ ts.head?, t.kind.Glues u.kind → ∃ c ∈ cs.head?, isBlank c = true)
    (hc : c ∈ cs.head?) : ¬ Extends t.written c := by
  obtain hblank | ⟨u, hu, hallows, others, heq⟩ := hrest.head hc
  · obtain ⟨shape, hm, hkind, -⟩ := ht.exists_shape
    exact not_extends_blank hm hkind hblank
  · intro hextends
    obtain ⟨c', hc', hblank⟩ := hgap u hu ((ht.extends_iff hallows heq).1 hextends)
    obtain rfl := Option.mem_unique hc hc'
    rw [hallows.not_isBlank heq] at hblank
    cases hblank

end Dialect

/-! ## What is laid out is scanned -/

namespace Token

variable {d : Dialect} {t : Token} {ts : List Token} {blanks rest cs : List Char}

/-- White space in front of something else is passed. -/
theorem segment_blanks (hblanks : ∀ c ∈ blanks, isBlank c = true)
    (hrest : ∀ c ∈ rest.head?, isBlank c = false) (offset : Nat) :
    ∃ stop, segment d offset (blanks ++ rest) = segment d stop rest := by
  by_cases hne : blanks = []
  · subst hne
    exact ⟨offset, rfl⟩
  · have hm : Shape.blank.Matches blanks := .blank hne hblanks
    have hnot : ∀ c ∈ rest.head?, ¬ Extends blanks c := fun c hc hextends => by
      have hblank := (extends_run_iff rfl hm).1 hextends
      rw [hrest c hc] at hblank
      cases hblank
    exact ⟨_, segment_blank (first?_of_not_extends hm (by decide) hnot) rfl⟩

/-- A token that does not go on is the first one. -/
theorem segment_written (ht : d.Allows t.kind t.text)
    (hnot : ∀ c ∈ rest.head?, ¬ Extends t.written c) (offset : Nat) :
    ∃ stop span, segment d offset (t.written ++ rest) =
      (segment d stop rest).cons ⟨t.kind, t.text, span⟩ := by
  obtain ⟨shape, hm, hkind, htext⟩ := ht.exists_shape
  have hshape : shape ≠ .openString := by
    rintro rfl
    cases hkind
  rw [← htext]
  exact ⟨_, _, segment_token (first?_of_not_extends hm hshape hnot) hkind⟩

/-- A segment has the tokens that are laid out. -/
theorem segment_laid (h : d.Laid ts cs) (offset : Nat) :
    ∃ tokens, segment d offset cs = .finished tokens ∧
      tokens.map content = ts.map content ++ [(.endOfInput, "")] := by
  induction h generalizing offset with
  | @last blanks hblanks =>
    obtain ⟨stop, hpassed⟩ := @segment_blanks d blanks [] hblanks (by simp) offset
    rw [List.append_nil] at hpassed
    exact ⟨_, hpassed.trans segment_end, rfl⟩
  | @token blanks cs t ts hblanks ht hrest hgap ih =>
    have hhead : ∀ c ∈ (t.written ++ cs).head?, isBlank c = false := fun c hc => by
      obtain ⟨shape, hm, -⟩ := ht.exists_shape
      obtain ⟨first, others, heq⟩ := List.exists_cons_of_ne_nil hm.ne_nil
      rw [heq] at hc
      cases hc
      exact ht.not_isBlank heq
    obtain ⟨start, hpassed⟩ := segment_blanks (d := d) hblanks hhead offset
    -- The gap is what keeps the token from being extended by the character behind it.
    obtain ⟨stop, span, hcons⟩ :=
      segment_written ht (fun c hc => hrest.not_extends ht hgap hc) start
    obtain ⟨tokens, hfinished, hcontent⟩ := ih stop
    refine ⟨⟨t.kind, t.text, span⟩ :: tokens, ?_, ?_⟩
    · rw [hpassed, hcons, hfinished]
      rfl
    · rw [List.map_cons, hcontent]
      rfl

end Token

/-- Tokens that glue and have no white space between them are not cut where they meet. -/
theorem Dialect.Allows.length_lt_of_glues {d : Dialect} {t u : Token} (ht : d.Allows t.kind t.text)
    (hu : d.Allows u.kind u.text) (hglues : t.kind.Glues u.kind) (rest : List Char) :
    ∃ l, first? (t.written ++ (u.written ++ rest)) = some l ∧
      t.written.length < l.chars.length := by
  obtain ⟨shape, hm, -⟩ := hu.exists_shape
  obtain ⟨c, others, heq⟩ := List.exists_cons_of_ne_nil hm.ne_nil
  obtain ⟨shape', hm'⟩ := (ht.extends_iff hu heq).2 hglues
  have hhead : t.written ++ [c] <+: t.written ++ (u.written ++ rest) := by
    rw [heq]
    exact (List.prefix_append_right_inj _).2 ⟨others ++ rest, rfl⟩
  cases hl : first? (t.written ++ (u.written ++ rest)) with
  | none => exact absurd hhead (first?_eq_none_iff.1 hl _ _ hm')
  | some l =>
    have hle := (longest_of_first? hl).longest _ _ hm' hhead
    rw [List.length_append] at hle
    exact ⟨l, rfl, hle⟩

/-- Tokens that are laid out are scanned as these tokens and the end marker, and where white space
is asked for, the first token would not end without it. -/
theorem tokenize_laid (d : Dialect) :
    (∀ (ts : List Token) (source : String), d.Laid ts source.toList →
        ∃ tokens, tokenize d source = .ok tokens ∧
          tokens.map Token.content = ts.map Token.content ++ [(.endOfInput, "")]) ∧
      ∀ t u : Token, d.Allows t.kind t.text → d.Allows u.kind u.text → t.kind.Glues u.kind →
        ∀ rest, ∃ l, first? (t.written ++ (u.written ++ rest)) = some l ∧
          t.written.length < l.chars.length := by
  refine ⟨fun ts source h => ?_, fun t u ht hu hglues => ht.length_lt_of_glues hu hglues⟩
  obtain ⟨tokens, hfinished, hcontent⟩ := Token.segment_laid h 0
  exact ⟨tokens, by rw [tokenize, Token.scanFrom_eq, hfinished], hcontent⟩

/-- In `LET x< =1` white space is needed between the words and between `<` and `=`. -/
theorem tokenize_laid_comparison :
    ∃ ts : List Token, Dialect.standard.Laid ts "LET x< =1".toList ∧
      ts.map Token.content = [(.letKeyword, "LET"), (.identifier, "x"), (.less, "<"),
        (.equals, "="), (.number, "1")] ∧
      ∃ tokens, tokenize .standard "LET x< =1" = .ok tokens ∧
        tokens.map Token.content = ts.map Token.content ++ [(.endOfInput, "")] := by
  have hlet : Dialect.standard.Allows .letKeyword "LET" :=
    @Dialect.Allows.keyword _ ("let", .letKeyword) "LET" (by decide) (by decide)
  have hx : Dialect.standard.Allows .identifier "x" :=
    .identifier (by decide) (List.all_eq_true.1 (by decide)) (by decide) (by decide)
  have hone : Dialect.standard.Allows .number "1" :=
    .number (by decide) (List.all_eq_true.1 (by decide))
  have hless : Dialect.standard.Allows .less "<" := .symbol (by decide)
  have hequals : Dialect.standard.Allows .equals "=" := .symbol (by decide)
  have hblank : ∀ c ∈ [' '], isBlank c = true := List.all_eq_true.1 (by decide)
  have hnil : ∀ c ∈ ([] : List Char), isBlank c = true := by simp
  have hdigit := Dialect.Laid.token (t := ⟨.number, "1", ⟨0, 0⟩⟩) hnil hone (.last hnil) (by simp)
  have hassign := Dialect.Laid.token (t := ⟨.equals, "=", ⟨0, 0⟩⟩) hblank hequals hdigit
    (by simp [Kind.Glues, Kind.isWord, Kind.isKeyword])
  have hcompare := Dialect.Laid.token (t := ⟨.less, "<", ⟨0, 0⟩⟩) hnil hless hassign
    (by simp [isBlank])
  have hname := Dialect.Laid.token (t := ⟨.identifier, "x", ⟨0, 0⟩⟩) hblank hx hcompare
    (by simp [Kind.Glues, Kind.isWord, Kind.isKeyword])
  have hlaid := Dialect.Laid.token (t := ⟨.letKeyword, "LET", ⟨0, 0⟩⟩) hnil hlet hname
    (by simp [isBlank])
  exact ⟨_, hlaid, rfl, (tokenize_laid .standard).1 _ "LET x< =1" hlaid⟩

end DialectScript
