import DialectScript.Token.Lexeme
import Mathlib.Data.List.TakeWhile

/-!
# Longest lexemes

Each form of a lexeme allows certain texts (`Shape.Matches`), said without a scanner: a run of one
class of characters, a symbol, or a quote with no other quote before the one that ends it.

**Theorem (`Lexeme.first?_eq_some_iff`).** What is cut off the head of a text is a text that some
form allows, and no form allows a longer one there.

**Theorem (`Lexeme.first?_eq_none_iff`).** Nothing is cut off if no form allows a text there.

The first character decides the form (`Shape.Starts`), but for the two forms of a string, of which
the closed one is longer. Among the symbols, two characters win over one.
-/

namespace DialectScript

open Lexeme

/-- The symbols as they are written. -/
def Kind.symbols : List (Kind × List Char) :=
  [(.leftParen, ['(']), (.rightParen, [')']), (.leftBrace, ['\x7b']), (.rightBrace, ['\x7d']),
    (.leftBracket, ['[']), (.rightBracket, [']']), (.comma, [',']), (.colon, [':']), (.dot, ['.']),
    (.semicolon, [';']), (.equals, ['=']), (.plus, ['+']), (.minus, ['-']), (.star, ['*']),
    (.slash, ['/']), (.percent, ['%']), (.equalEqual, ['=', '=']), (.notEqual, ['!', '=']),
    (.less, ['<']), (.greater, ['>']), (.lessEqual, ['<', '=']), (.greaterEqual, ['>', '=']),
    (.andAnd, ['&', '&']), (.orOr, ['|', '|'])]

/-! ## Classes of characters -/

namespace Lexeme

variable {c : Char}

/-- The character is neither white space nor a letter, a digit or a quote. -/
structure Classless (c : Char) : Prop where
  not_blank : isBlank c = false
  not_alpha : c.isAlpha = false
  not_digit : c.isDigit = false
  not_quote : c ≠ '"'

theorem classes_of_isBlank (h : isBlank c = true) :
    c.isAlpha = false ∧ c.isDigit = false ∧ c ≠ '"' := by
  simp only [isBlank, Bool.or_eq_true, beq_iff_eq] at h
  rcases h with ((rfl | rfl) | rfl) | rfl <;> decide

theorem isDigit_of_isAlpha (h : c.isAlpha = true) : c.isDigit = false := by
  have halpha : c.isAlpha =
      (decide (c.val ≥ 65 ∧ c.val ≤ 90) || (decide (c.val ≥ 97) && decide (c.val ≤ 122))) := rfl
  have hdigit : c.isDigit = (decide (c.val ≥ 48) && decide (c.val ≤ 57)) := rfl
  rw [halpha] at h
  rw [hdigit]
  grind

end Lexeme

/-! ## The forms -/

namespace Shape

/-- The texts that a form allows. -/
inductive Matches : Shape → List Char → Prop
  | blank {cs : List Char} : cs ≠ [] → (∀ c ∈ cs, isBlank c = true) → Matches .blank cs
  | word {cs : List Char} : cs ≠ [] → (∀ c ∈ cs, c.isAlpha = true) → Matches .word cs
  | number {cs : List Char} : cs ≠ [] → (∀ c ∈ cs, c.isDigit = true) → Matches .number cs
  | string {cs : List Char} : '"' ∉ cs → Matches .string ('"' :: (cs ++ ['"']))
  | openString {cs : List Char} : '"' ∉ cs → Matches .openString ('"' :: cs)
  | symbol {kind : Kind} {cs : List Char} :
      (kind, cs) ∈ Kind.symbols → Matches (.symbol kind) cs

/-- The first character that a form wants. -/
def Starts : Shape → Char → Prop
  | .blank, c => isBlank c = true
  | .word, c => c.isAlpha = true
  | .number, c => c.isDigit = true
  | .string, c | .openString, c => c = '"'
  | .symbol _, c => Classless c

variable {shape : Shape} {c : Char} {cs : List Char}

theorem Matches.ne_nil (h : shape.Matches cs) : cs ≠ [] := by
  cases h with
  | blank hne _ | word hne _ | number hne _ => exact hne
  | string _ | openString _ => exact List.cons_ne_nil _ _
  | symbol hmem =>
    have hall : ∀ entry ∈ Kind.symbols, entry.2 ≠ [] := by decide
    exact hall _ hmem

theorem Matches.starts (h : shape.Matches (c :: cs)) : shape.Starts c := by
  cases h with
  | blank _ hall | word _ hall | number _ hall => exact hall c List.mem_cons_self
  | string _ | openString _ => rfl
  | symbol hmem =>
    have hall : ∀ entry ∈ Kind.symbols, entry.2.all fun c =>
        !isBlank c && !c.isAlpha && !c.isDigit && c != '"' := by decide
    have hc := List.all_eq_true.1 (hall _ hmem) c List.mem_cons_self
    simp only [Bool.and_eq_true, Bool.not_eq_true', bne_iff_ne] at hc
    obtain ⟨⟨⟨hblank, halpha⟩, hdigit⟩, hquote⟩ := hc
    exact ⟨hblank, halpha, hdigit, hquote⟩

theorem Starts.eq_blank (h : shape.Starts c) (hc : isBlank c = true) : shape = .blank := by
  obtain ⟨halpha, hdigit, hquote⟩ := classes_of_isBlank hc
  cases shape with
  | blank => rfl
  | word => rw [show c.isAlpha = true from h] at halpha; cases halpha
  | number => rw [show c.isDigit = true from h] at hdigit; cases hdigit
  | string | openString => exact absurd h hquote
  | symbol kind => rw [h.not_blank] at hc; cases hc

theorem Starts.eq_word (h : shape.Starts c) (hc : c.isAlpha = true) : shape = .word := by
  have hdigit := isDigit_of_isAlpha hc
  cases shape with
  | blank => rw [(classes_of_isBlank h).1] at hc; cases hc
  | word => rfl
  | number => rw [show c.isDigit = true from h] at hdigit; cases hdigit
  | string | openString => rw [show c = '"' from h] at hc; revert hc; decide
  | symbol kind => rw [h.not_alpha] at hc; cases hc

theorem Starts.eq_number (h : shape.Starts c) (hc : c.isDigit = true) : shape = .number := by
  cases shape with
  | blank => rw [(classes_of_isBlank h).2.1] at hc; cases hc
  | word => rw [isDigit_of_isAlpha h] at hc; cases hc
  | number => rfl
  | string | openString => rw [show c = '"' from h] at hc; revert hc; decide
  | symbol kind => rw [h.not_digit] at hc; cases hc

theorem Starts.eq_string (h : shape.Starts '"') : shape = .string ∨ shape = .openString := by
  cases shape with
  | blank => exact absurd (show isBlank '"' = true from h) (by decide)
  | word => exact absurd (show '"'.isAlpha = true from h) (by decide)
  | number => exact absurd (show '"'.isDigit = true from h) (by decide)
  | string => exact .inl rfl
  | openString => exact .inr rfl
  | symbol kind => exact absurd rfl h.not_quote

theorem Starts.eq_symbol (h : shape.Starts c) (hc : Classless c) :
    ∃ kind, shape = .symbol kind := by
  cases shape with
  | blank => exact absurd (show isBlank c = true from h) (by simp [hc.not_blank])
  | word => exact absurd (show c.isAlpha = true from h) (by simp [hc.not_alpha])
  | number => exact absurd (show c.isDigit = true from h) (by simp [hc.not_digit])
  | string | openString => exact absurd h hc.not_quote
  | symbol kind => exact ⟨kind, rfl⟩

end Shape

namespace Lexeme

variable {c : Char} {cs chars : List Char} {shape : Shape} {l : Lexeme}

/-- The text stands at the head of the other, and no form allows a longer one there. -/
structure Longest (cs : List Char) (shape : Shape) (chars : List Char) : Prop where
  allowed : shape.Matches chars
  head : chars <+: cs
  longest : ∀ (shape' : Shape) chars', shape'.Matches chars' → chars' <+: cs →
    chars'.length ≤ chars.length

/-! ## Runs -/

theorem length_le_takeWhile {p : Char → Bool} (hhead : chars <+: cs)
    (hall : ∀ c ∈ chars, p c = true) : chars.length ≤ (cs.takeWhile p).length := by
  obtain ⟨rest, rfl⟩ := hhead
  rw [List.takeWhile_append_of_pos hall, List.length_append]
  exact Nat.le_add_right _ _

/-- Where every lexeme is a run of one class, the longest is the longest run. -/
theorem longest_run {p : Char → Bool} (hc : p c = true)
    (hallowed : ∀ cs, cs ≠ [] → (∀ c ∈ cs, p c = true) → shape.Matches cs)
    (honly : ∀ (shape' : Shape) chars', shape'.Matches chars' → chars' <+: c :: cs →
      ∀ c ∈ chars', p c = true) :
    Longest (c :: cs) shape (run shape p (c :: cs)).chars where
  allowed := hallowed _ (run_chars_ne_nil shape cs hc) fun _ hmem => List.mem_takeWhile_imp hmem
  head := List.takeWhile_prefix p
  longest shape' chars' hm hhead := length_le_takeWhile hhead (honly shape' chars' hm hhead)

/-- The forms of the lexemes at the head of a text want its first character. -/
theorem starts_of_head (hm : shape.Matches chars) (hhead : chars <+: c :: cs) :
    shape.Starts c := by
  cases chars with
  | nil => exact absurd rfl hm.ne_nil
  | cons d chars =>
    rw [(List.cons_prefix_cons.1 hhead).1] at hm
    exact hm.starts

theorem longest_blank (hc : isBlank c = true) :
    Longest (c :: cs) .blank (run .blank isBlank (c :: cs)).chars :=
  longest_run hc (fun _ => .blank) fun shape' chars' hm hhead => by
    obtain rfl := (starts_of_head hm hhead).eq_blank hc
    cases hm with
    | blank _ hall => exact hall

theorem longest_word (hc : c.isAlpha = true) :
    Longest (c :: cs) .word (run .word Char.isAlpha (c :: cs)).chars :=
  longest_run hc (fun _ => .word) fun shape' chars' hm hhead => by
    obtain rfl := (starts_of_head hm hhead).eq_word hc
    cases hm with
    | word _ hall => exact hall

theorem longest_number (hc : c.isDigit = true) :
    Longest (c :: cs) .number (run .number Char.isDigit (c :: cs)).chars :=
  longest_run hc (fun _ => .number) fun shape' chars' hm hhead => by
    obtain rfl := (starts_of_head hm hhead).eq_number hc
    cases hm with
    | number _ hall => exact hall

/-! ## Strings -/

/-- A string takes what stands before the next quote, and that quote. -/
theorem quoted_eq_string {body rest : List Char} (hbody : '"' ∉ body) :
    quoted (body ++ '"' :: rest) = ⟨.string, '"' :: (body ++ ['"']), rest⟩ := by
  have hall : ∀ c ∈ body, (c != '"') = true := fun c hmem =>
    bne_iff_ne.2 fun hc => hbody (hc ▸ hmem)
  simp [quoted, List.dropWhile_append_of_pos hall, List.takeWhile_append_of_pos hall]

/-- Without a later quote, a string is open and takes the whole text. -/
theorem quoted_eq_openString (hcs : '"' ∉ cs) : quoted cs = ⟨.openString, '"' :: cs, []⟩ := by
  have hdrop : cs.dropWhile (· != '"') = [] :=
    List.dropWhile_eq_nil_iff.2 fun c hmem => bne_iff_ne.2 fun hc => hcs (hc ▸ hmem)
  simp [quoted, hdrop]

theorem length_le_of_quoteless {body rest : List Char} (hchars : '"' ∉ chars)
    (hhead : chars <+: body ++ '"' :: rest) : chars.length ≤ body.length := by
  by_contra hlt
  have hquote : body ++ ['"'] <+: chars :=
    List.prefix_of_prefix_length_le ⟨rest, by simp⟩ hhead (by simp; omega)
  exact hchars (hquote.subset (by simp))

theorem longest_quoted : Longest ('"' :: cs) (quoted cs).shape (quoted cs).chars := by
  by_cases hquote : '"' ∈ cs
  · obtain ⟨body, rest, rfl, hbody⟩ := List.eq_append_cons_of_mem hquote
    rw [quoted_eq_string hbody]
    refine ⟨.string hbody, ⟨rest, by simp⟩, fun shape' chars' hm hhead => ?_⟩
    obtain rfl | rfl := (starts_of_head hm hhead).eq_string
    · cases hm with
      | string hb =>
        have := length_le_of_quoteless hb
          ((List.prefix_append _ _).trans (List.cons_prefix_cons.1 hhead).2)
        simpa using this
    · cases hm with
      | openString hb =>
        have := length_le_of_quoteless hb (List.cons_prefix_cons.1 hhead).2
        simp only [List.length_cons, List.length_append, List.length_nil]
        omega
  · rw [quoted_eq_openString hquote]
    exact ⟨.openString hquote, List.prefix_rfl, fun _ _ _ hhead => hhead.length_le⟩

/-! ## Symbols -/

/-- The kind of a symbol. -/
def symbolKind? : List Char → Option Kind
  | [c] => singleSymbol? c
  | [c, d] => pairSymbol? c d
  | _ => none

/-- The scanner knows the symbols. -/
theorem mem_symbols_iff {kind : Kind} :
    (kind, chars) ∈ Kind.symbols ↔ symbolKind? chars = some kind := by
  constructor
  · have hall : ∀ entry ∈ Kind.symbols, symbolKind? entry.2 = some entry.1 := by decide
    exact hall (kind, chars)
  · intro h
    unfold symbolKind? at h
    split at h
    · unfold singleSymbol? at h
      split at h <;> cases h <;> decide
    · unfold pairSymbol? at h
      split at h <;> cases h <;> decide
    · cases h

theorem symbol?_sound (h : symbol? cs = some l) :
    ∃ kind, l.shape = .symbol kind ∧ (kind, l.chars) ∈ Kind.symbols := by
  unfold symbol? at h
  split at h
  · cases h
  · obtain ⟨kind, hkind, rfl⟩ := Option.map_eq_some_iff.1 h
    exact ⟨kind, rfl, mem_symbols_iff.2 hkind⟩
  · split at h
    · next kind hkind =>
      cases h
      exact ⟨kind, rfl, mem_symbols_iff.2 hkind⟩
    · obtain ⟨kind, hkind, rfl⟩ := Option.map_eq_some_iff.1 h
      exact ⟨kind, rfl, mem_symbols_iff.2 hkind⟩

/-- Where a symbol stands, one at least as long is found. -/
theorem symbol?_complete {kind : Kind} (hmem : (kind, chars) ∈ Kind.symbols)
    (hhead : chars <+: cs) : ∃ l, symbol? cs = some l ∧ chars.length ≤ l.chars.length := by
  obtain ⟨rest, rfl⟩ := hhead
  rw [mem_symbols_iff] at hmem
  unfold symbolKind? at hmem
  split at hmem
  · next c =>
    cases rest with
    | nil => exact ⟨⟨.symbol kind, [c], []⟩, by simp [symbol?, hmem], Nat.le_refl _⟩
    | cons d rest =>
      cases hpair : pairSymbol? c d with
      | none =>
        exact ⟨⟨.symbol kind, [c], d :: rest⟩, by simp [symbol?, hpair, hmem], Nat.le_refl _⟩
      | some pair => exact ⟨⟨.symbol pair, [c, d], rest⟩, by simp [symbol?, hpair], by simp⟩
  · next c d => exact ⟨⟨.symbol kind, [c, d], rest⟩, by simp [symbol?, hmem], Nat.le_refl _⟩
  · cases hmem

theorem longest_symbol (hc : Classless c) (h : symbol? (c :: cs) = some l) :
    Longest (c :: cs) l.shape l.chars := by
  obtain ⟨kind, hshape, hmem⟩ := symbol?_sound h
  refine ⟨hshape ▸ .symbol hmem, ⟨l.rest, symbol?_chars_append_rest h⟩,
    fun shape' chars' hm hhead => ?_⟩
  obtain ⟨kind', rfl⟩ := (starts_of_head hm hhead).eq_symbol hc
  cases hm with
  | symbol hmem' =>
    obtain ⟨l', hl', hlength⟩ := symbol?_complete hmem' hhead
    cases h.symm.trans hl'
    exact hlength

/-! ## What is cut off is the longest -/

/-- The class of the first character decides what is cut off. -/
theorem first?_cons (c : Char) (cs : List Char) :
    (isBlank c = true ∧ first? (c :: cs) = some (run .blank isBlank (c :: cs))) ∨
    (c.isAlpha = true ∧ first? (c :: cs) = some (run .word Char.isAlpha (c :: cs))) ∨
    (c.isDigit = true ∧ first? (c :: cs) = some (run .number Char.isDigit (c :: cs))) ∨
    (c = '"' ∧ first? (c :: cs) = some (quoted cs)) ∨
    (Classless c ∧ first? (c :: cs) = symbol? (c :: cs)) := by
  rw [first?]
  split
  · next hblank => exact .inl ⟨hblank, rfl⟩
  next hblank =>
  split
  · next halpha => exact .inr (.inl ⟨halpha, rfl⟩)
  next halpha =>
  split
  · next hdigit => exact .inr (.inr (.inl ⟨hdigit, rfl⟩))
  next hdigit =>
  split
  · next hquote => exact .inr (.inr (.inr (.inl ⟨beq_iff_eq.1 hquote, rfl⟩)))
  · next hquote =>
    simp only [Bool.not_eq_true, beq_eq_false_iff_ne] at hblank halpha hdigit hquote
    exact .inr (.inr (.inr (.inr ⟨⟨hblank, halpha, hdigit, hquote⟩, rfl⟩)))

theorem longest_of_first? (h : first? cs = some l) : Longest cs l.shape l.chars := by
  cases cs with
  | nil => cases h
  | cons c cs =>
    obtain ⟨hc, heq⟩ | ⟨hc, heq⟩ | ⟨hc, heq⟩ | ⟨rfl, heq⟩ | ⟨hc, heq⟩ := first?_cons c cs <;>
      rw [heq] at h
    · cases h
      exact longest_blank hc
    · cases h
      exact longest_word hc
    · cases h
      exact longest_number hc
    · cases h
      exact longest_quoted
    · exact longest_symbol hc h

/-- Nothing is cut off if no form allows a text at the head. -/
theorem first?_eq_none_iff :
    first? cs = none ↔ ∀ (shape : Shape) chars, shape.Matches chars → ¬ chars <+: cs := by
  constructor
  · intro h shape chars hm hhead
    cases cs with
    | nil => exact hm.ne_nil (List.prefix_nil.1 hhead)
    | cons c cs =>
      -- Only of the symbols there may be none behind the first character.
      obtain ⟨-, heq⟩ | ⟨-, heq⟩ | ⟨-, heq⟩ | ⟨-, heq⟩ | ⟨hc, heq⟩ := first?_cons c cs <;>
        rw [heq] at h
      iterate 4 cases h
      obtain ⟨kind, rfl⟩ := (starts_of_head hm hhead).eq_symbol hc
      cases hm with
      | symbol hmem =>
        obtain ⟨l, hl, -⟩ := symbol?_complete hmem hhead
        cases h.symm.trans hl
  · intro hnone
    cases h : first? cs with
    | none => rfl
    | some l =>
      have hlongest := longest_of_first? h
      exact absurd hlongest.head (hnone _ _ hlongest.allowed)

end Lexeme

/-! ## The longest lexeme is one -/

/-- No text has two forms. -/
theorem Shape.Matches.shape_eq {shape shape' : Shape} {chars : List Char}
    (h : shape.Matches chars) (h' : shape'.Matches chars) : shape = shape' := by
  cases chars with
  | nil => exact absurd rfl h.ne_nil
  | cons c cs =>
    have hstarts := h'.starts
    -- Two shapes start alike only if both are strings or both are symbols.
    cases h with
    | blank _ hall => exact (hstarts.eq_blank (hall c List.mem_cons_self)).symm
    | word _ hall => exact (hstarts.eq_word (hall c List.mem_cons_self)).symm
    | number _ hall => exact (hstarts.eq_number (hall c List.mem_cons_self)).symm
    | string _ =>
      obtain rfl | rfl := hstarts.eq_string
      · rfl
      · cases h' with
        | openString hbody => simp at hbody
    | openString hbody =>
      obtain rfl | rfl := hstarts.eq_string
      · cases h' with
        | string _ => simp at hbody
      · rfl
    | symbol hmem =>
      obtain ⟨kind', rfl⟩ := hstarts.eq_symbol (Shape.Matches.symbol hmem).starts
      cases h' with
      | symbol hmem' =>
        rw [mem_symbols_iff] at hmem hmem'
        cases hmem.symm.trans hmem'
        rfl

namespace Lexeme

variable {cs chars chars' rest : List Char} {shape shape' : Shape}

theorem Longest.unique (h : Longest cs shape chars) (h' : Longest cs shape' chars') :
    shape = shape' ∧ chars = chars' := by
  have hlength : chars.length = chars'.length :=
    Nat.le_antisymm (h'.longest _ _ h.allowed h.head) (h.longest _ _ h'.allowed h'.head)
  obtain rfl : chars = chars' :=
    (List.prefix_of_prefix_length_le h.head h'.head hlength.le).eq_of_length hlength
  exact ⟨h.allowed.shape_eq h'.allowed, rfl⟩

/-- What is cut off the head of a text is the longest lexeme there. -/
theorem first?_eq_some_iff :
    first? (chars ++ rest) = some ⟨shape, chars, rest⟩ ↔ Longest (chars ++ rest) shape chars := by
  refine ⟨longest_of_first?, fun hlongest => ?_⟩
  cases h : first? (chars ++ rest) with
  | none => exact absurd hlongest.head (first?_eq_none_iff.1 h _ _ hlongest.allowed)
  | some l =>
    obtain ⟨rfl, rfl⟩ := hlongest.unique (longest_of_first? h)
    obtain rfl := List.append_cancel_left (chars_append_rest h)
    rfl

end Lexeme

end DialectScript
