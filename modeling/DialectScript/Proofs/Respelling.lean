import Mathlib
import DialectScript.Proofs.Alike
import DialectScript.Proofs.Restarts

/-!
# One language in two spellings

Tokens are written under a dialect (`Dialect.spell`) with the dialect's own words for the keywords,
strings in quotes, and one space between two tokens.

* `Dialect.tokenize_spell` — **what is written under a dialect is scanned as the tokens that were
  meant.**
* `Program.ofSource_spell` — **under all dialects this is the same program, or the errors have alike
  causes and are about tokens at the same index.**

A space ends every lexeme but a string, so what is written in front of a space or of the end is the
longest lexeme there (`Lexeme.first?_apart`). The scan follows the list of tokens, and that the
tokens are read alike is `Program.ofTokens_alike`.
-/

namespace DialectScript

open Lexeme

/-! ## Writing tokens under a dialect -/

namespace Dialect

/-- The texts that a dialect fixes: its words for the keywords, and the symbols. -/
def spellings (d : Dialect) : List (Kind × List Char) :=
  d.keywords.map (fun entry => (entry.2, entry.1.toList)) ++ Kind.symbols

/-- The text of a token under the dialect: the one that is fixed for the kind, or the given one if
there is none. -/
def respell (d : Dialect) (kind : Kind) (text : String) : String :=
  match d.spellings.lookup kind with
  | some chars => .ofList chars
  | none => text

/-- A token as it is written under the dialect: a string stands in quotes. -/
def write (d : Dialect) (kind : Kind) (text : String) : String :=
  if kind = .string then "\"" ++ text ++ "\"" else d.respell kind text

/-- The tokens as they are written under the dialect, with a space between two. -/
def spell (d : Dialect) (ts : List (Kind × String)) : String :=
  " ".intercalate (ts.map fun t => d.write t.1 t.2)

/-- The tokens as they are written under the dialect, with a space before each. -/
def spaced (d : Dialect) (ts : List (Kind × String)) : List Char :=
  ts.flatMap fun t => ' ' :: (d.write t.1 t.2).toList

/-- The token is of the kind, and its text is what the dialect makes of the given one. -/
structure Means (d : Dialect) (t : Kind × String) (token : Token) : Prop where
  kind : token.kind = t.1
  text : token.text = d.respell t.1 t.2

end Dialect

/-- The kind may have the text: an identifier consists of letters and is no keyword and no switch
word of any dialect, a number consists of digits, and no quote stands in a string. Of the other
kinds, the text does not count. The end marker is not written. -/
def Kind.Allows : Kind → String → Prop
  | .identifier, text => text.toList ≠ [] ∧ (∀ c ∈ text.toList, c.isAlpha = true) ∧
      ∀ d : Dialect, Word.spells text.toList d.switchWord = false ∧
        ∀ entry ∈ d.keywords, Word.spells text.toList entry.1 = false
  | .number, text => text.toList ≠ [] ∧ ∀ c ∈ text.toList, c.isDigit = true
  | .string, text => '"' ∉ text.toList
  | .endOfInput, _ => False
  | _, _ => True

/-! ## Lexemes in front of a space or the end -/

/-- The text is empty, or a space comes first. -/
def Lexeme.Apart (rest : List Char) : Prop := ∀ c ∈ rest.head?, c = ' '

/-- In a lexeme that begins neither with white space nor with a quote, there is no space. -/
theorem Shape.Matches.not_mem_space {shape : Shape} {c : Char} {cs : List Char}
    (h : shape.Matches (c :: cs)) (hblank : isBlank c = false) (hquote : c ≠ '"') :
    ' ' ∉ c :: cs := by
  intro hspace
  cases h with
  | blank _ hall => exact absurd (hall c List.mem_cons_self) (by simp [hblank])
  | word _ hall => exact absurd (hall ' ' hspace) (by decide)
  | number _ hall => exact absurd (hall ' ' hspace) (by decide)
  | string _ | openString _ => exact hquote rfl
  | symbol hmem =>
    have hall : ∀ entry ∈ Kind.symbols, ' ' ∉ entry.2 := by decide
    exact hall _ hmem hspace

namespace Lexeme

variable {d : Dialect} {cs chars rest : List Char} {shape : Shape} {c : Char} {kind : Kind}

/-- A lexeme without a space, in front of a space or the end, is the longest. -/
theorem first?_apart (hmatches : shape.Matches (c :: cs)) (hblank : isBlank c = false)
    (hquote : c ≠ '"') (hrest : Apart rest) :
    first? (c :: cs ++ rest) = some ⟨shape, c :: cs, rest⟩ := by
  refine first?_eq_some_iff.2 ⟨hmatches, List.prefix_append _ _, fun shape' cs' hm hhead => ?_⟩
  by_contra hlt
  -- A longer one would go on with the space.
  obtain ⟨more, rfl⟩ : c :: cs <+: cs' :=
    List.prefix_of_prefix_length_le (List.prefix_append _ rest) hhead (by omega)
  cases more with
  | nil => simp at hlt
  | cons space more =>
    obtain ⟨behind, rfl⟩ : space :: more <+: rest := (List.prefix_append_right_inj _).1 hhead
    obtain rfl : space = ' ' := hrest space rfl
    exact hm.not_mem_space hblank hquote (by simp)

/-- A string ends with its quote, whatever follows. -/
theorem first?_string {body : List Char} (hbody : '"' ∉ body) (rest : List Char) :
    first? ('"' :: (body ++ ['"']) ++ rest) = some ⟨.string, '"' :: (body ++ ['"']), rest⟩ := by
  rw [← quoted_eq_string hbody]
  simp [first?, isBlank]

/-- One space is a lexeme of its own if no other white space follows. -/
theorem first?_space (hblank : isBlank c = false) :
    first? (' ' :: c :: cs) = some ⟨.blank, [' '], c :: cs⟩ := by
  have hspace : isBlank ' ' = true := rfl
  simp [first?, run, hspace, hblank]

/-- A lexeme that makes a token does not begin with white space. -/
theorem not_isBlank_of_kind? (hmatches : shape.Matches (c :: cs))
    (hkind : d.kind? shape (c :: cs) = some kind) : isBlank c = false := by
  cases hc : isBlank c with
  | false => rfl
  | true =>
    rw [hmatches.starts.eq_blank hc] at hkind
    cases hkind

/-- In front of a space or the end, a lexeme that makes a token is cut off whole. -/
theorem first?_of_kind? (hmatches : shape.Matches chars) (hkind : d.kind? shape chars = some kind)
    (hrest : Apart rest) : first? (chars ++ rest) = some ⟨shape, chars, rest⟩ := by
  obtain ⟨c, cs, rfl⟩ := List.exists_cons_of_ne_nil hmatches.ne_nil
  by_cases hquote : c = '"'
  · subst hquote
    obtain rfl | rfl := hmatches.starts.eq_string
    · cases hmatches with
      | string hbody => exact first?_string hbody rest
    · cases hkind
  · exact first?_apart hmatches (not_isBlank_of_kind? hmatches hkind) hquote hrest

end Lexeme

/-! ## The texts that a dialect fixes -/

namespace Dialect

variable {d d' : Dialect} {kind : Kind} {chars : List Char} {text : String}

/-- A keyword has its kind under the dialect. -/
theorem kind?_keyword : ∀ entry ∈ d.keywords, Shape.word.Matches entry.1.toList ∧
    d.kind? .word entry.1.toList = some entry.2 := by
  have hletters : ∀ entry ∈ d.keywords, entry.1.toList ≠ [] ∧
      entry.1.toList.all Char.isAlpha = true ∧
      d.kind? .word entry.1.toList = some entry.2 := by
    cases d <;> decide
  intro entry hmem
  obtain ⟨hne, hall, hkind⟩ := hletters entry hmem
  exact ⟨.word hne (List.all_eq_true.1 hall), hkind⟩

/-- A word that is no keyword and not the switch word is an identifier. -/
theorem kind?_identifier (hswitch : Word.spells chars d.switchWord = false)
    (hkeywords : ∀ entry ∈ d.keywords, Word.spells chars entry.1 = false) :
    d.kind? .word chars = some .identifier := by
  have hfind : d.keywords.find? (fun entry => Word.spells chars entry.1) = none :=
    List.find?_eq_none.2 fun entry hmem => by simp [hkeywords entry hmem]
  simp [kind?, classify, hswitch, hfind]

/-- The fixed texts are those of the keywords and the symbols. -/
theorem lookup_spellings (h : d.spellings.lookup kind = some chars) :
    (∃ entry ∈ d.keywords, entry.2 = kind ∧ entry.1.toList = chars) ∨
      (kind, chars) ∈ Kind.symbols := by
  obtain ⟨before, behind, heq, -⟩ := List.lookup_eq_some_iff.1 h
  have hmem : (kind, chars) ∈ d.spellings := by simp [heq]
  simpa [spellings] using hmem

theorem lookup_spellings_eq_none (h : d.spellings.lookup kind = none) :
    kind = .number ∨ kind = .identifier ∨ kind = .string ∨ kind = .endOfInput := by
  cases d <;> revert h <;> cases kind <;> decide

/-- Beside the keywords, every dialect fixes the texts of the symbols. -/
theorem lookup_spellings_of_not_keyword (d : Dialect) (h : kind.isKeyword = false) :
    d.spellings.lookup kind = Kind.symbols.lookup kind := by
  have hall : ∀ entry ∈ d.keywords, entry.2.isKeyword = true := by cases d <;> decide
  have hkeywords : (d.keywords.map fun entry => (entry.2, entry.1.toList)).lookup kind = none := by
    refine List.lookup_eq_none_iff.2 fun pair hmem => ?_
    obtain ⟨entry, hentry, rfl⟩ := List.mem_map.1 hmem
    have hne : kind ≠ entry.2 := by
      rintro rfl
      rw [hall entry hentry] at h
      cases h
    exact bne_iff_ne.2 hne
  rw [spellings, List.lookup_append, hkeywords, Option.none_or]

/-- Only the text of a keyword depends on the dialect. -/
theorem respell_eq (h : kind.isKeyword = false) : d'.respell kind text = d.respell kind text := by
  rw [respell, respell, lookup_spellings_of_not_keyword d h, lookup_spellings_of_not_keyword d' h]

/-- What is written for a token is a lexeme that makes the token. -/
theorem exists_shape_write (h : kind.Allows text) :
    ∃ shape : Shape, shape.Matches (d.write kind text).toList ∧
      d.kind? shape (d.write kind text).toList = some kind ∧
      shape.text (d.write kind text).toList = d.respell kind text := by
  cases hlookup : d.spellings.lookup kind with
  | some chars =>
    have hrespell : d.respell kind text = .ofList chars := by rw [respell, hlookup]
    have hstring : kind ≠ .string := by
      rintro rfl
      cases d <;> cases hlookup
    rw [write, if_neg hstring, hrespell, String.toList_ofList]
    obtain ⟨entry, hmem, rfl, rfl⟩ | hmem := lookup_spellings hlookup
    · obtain ⟨hmatches, hkind⟩ := kind?_keyword entry hmem
      exact ⟨.word, hmatches, hkind, rfl⟩
    · exact ⟨.symbol kind, .symbol hmem, rfl, rfl⟩
  | none =>
    have hrespell : d.respell kind text = text := by rw [respell, hlookup]
    rw [write, hrespell]
    obtain rfl | rfl | rfl | rfl := lookup_spellings_eq_none hlookup
    · exact ⟨.number, .number h.1 h.2, rfl, String.ofList_toList⟩
    · obtain ⟨hne, hall, hreserved⟩ := h
      obtain ⟨hswitch, hkeywords⟩ := hreserved d
      exact ⟨.word, .word hne hall, kind?_identifier hswitch hkeywords, String.ofList_toList⟩
    · have hquoted : ("\"" ++ text ++ "\"").toList = '"' :: (text.toList ++ ['"']) := by simp
      rw [if_pos rfl, hquoted]
      exact ⟨.string, .string h, rfl, by simp [Shape.text]⟩
    · exact h.elim

theorem apart_spaced (d : Dialect) (ts : List (Kind × String)) : Apart (d.spaced ts) := by
  cases ts <;> simp [Apart, spaced]

/-- The first token has no space before it. -/
theorem toList_spell_cons (d : Dialect) (t : Kind × String) (ts : List (Kind × String)) :
    (d.spell (t :: ts)).toList = (d.write t.1 t.2).toList ++ d.spaced ts := by
  induction ts generalizing t with
  | nil => simp [spell, spaced]
  | cons u ts ih =>
    simp only [spell, spaced, String.toList_intercalate, List.map_cons, List.flatMap_cons,
      List.intercalate_cons_cons] at ih ⊢
    rw [ih u]
    simp

end Dialect

/-! ## What is written is scanned -/

namespace Token

variable {d : Dialect} {kind : Kind} {text : String} {rest : List Char} {ts : List (Kind × String)}

/-- A written token, in front of a space or the end, is the first token. -/
theorem segment_write (h : kind.Allows text) (hrest : Apart rest) (offset : Nat) :
    ∃ stop token, d.Means (kind, text) token ∧
      segment d offset ((d.write kind text).toList ++ rest) = (segment d stop rest).cons token := by
  obtain ⟨shape, hmatches, hkind, htext⟩ := d.exists_shape_write h
  exact ⟨_, _, ⟨rfl, htext⟩, segment_token (first?_of_kind? hmatches hkind hrest) hkind⟩

/-- A space before a written token is passed. -/
theorem segment_space (h : kind.Allows text) (rest : List Char) (offset : Nat) :
    ∃ stop, segment d offset (' ' :: (d.write kind text).toList ++ rest) =
      segment d stop ((d.write kind text).toList ++ rest) := by
  obtain ⟨shape, hmatches, hkind, -⟩ := d.exists_shape_write h
  obtain ⟨c, cs, heq⟩ := List.exists_cons_of_ne_nil hmatches.ne_nil
  rw [heq] at hmatches hkind ⊢
  exact ⟨_, segment_blank (first?_space (not_isBlank_of_kind? hmatches hkind)) rfl⟩

theorem segment_spaced (h : ∀ t ∈ ts, t.1.Allows t.2) (offset : Nat) :
    ∃ tokens, List.Forall₂ d.Means (ts ++ [(.endOfInput, "")]) tokens ∧
      segment d offset (d.spaced ts) = .finished tokens := by
  induction ts generalizing offset with
  | nil => exact ⟨_, .cons ⟨rfl, by cases d <;> rfl⟩ .nil, segment_end⟩
  | cons t ts ih =>
    obtain ⟨ht, hts⟩ := List.forall_mem_cons.1 h
    obtain ⟨start, hspace⟩ := segment_space (d := d) ht (d.spaced ts) offset
    obtain ⟨stop, token, hmeans, htoken⟩ := segment_write ht (d.apart_spaced ts) start
    obtain ⟨tokens, htokens, hfinished⟩ := ih hts stop
    refine ⟨token :: tokens, .cons hmeans htokens, ?_⟩
    rw [Dialect.spaced, List.flatMap_cons, ← Dialect.spaced, hspace, htoken, hfinished]
    rfl

end Token

namespace Dialect

variable {d d' : Dialect} {ts : List (Kind × String)}

/-- What is written under a dialect is scanned under it as the tokens that were meant. -/
theorem tokenize_spell (d : Dialect) (h : ∀ t ∈ ts, t.1.Allows t.2) :
    ∃ tokens, tokenize d (d.spell ts) = .ok tokens ∧
      List.Forall₂ d.Means (ts ++ [(.endOfInput, "")]) tokens := by
  cases ts with
  | nil =>
    obtain ⟨tokens, htokens, hfinished⟩ := Token.segment_spaced (d := d) h 0
    have hnil : (d.spell []).toList = d.spaced [] := by simp [spell, spaced]
    refine ⟨tokens, ?_, htokens⟩
    rw [tokenize, Token.scanFrom_eq, hnil, hfinished]
  | cons t ts =>
    obtain ⟨ht, hts⟩ := List.forall_mem_cons.1 h
    obtain ⟨stop, token, hmeans, htoken⟩ := Token.segment_write ht (d.apart_spaced ts) 0
    obtain ⟨tokens, htokens, hfinished⟩ := Token.segment_spaced hts stop
    refine ⟨token :: tokens, ?_, .cons hmeans htokens⟩
    rw [tokenize, Token.scanFrom_eq, toList_spell_cons, htoken, hfinished]
    rfl

/-- Tokens that are meant by one list are alike. -/
theorem alike_of_means {tokens tokens' : List Token} (h : List.Forall₂ d.Means ts tokens)
    (h' : List.Forall₂ d'.Means ts tokens') : List.Forall₂ Token.Alike tokens tokens' := by
  induction h generalizing tokens' with
  | nil =>
    cases h'
    exact .nil
  | cons ht _ ih =>
    cases h' with
    | cons ht' hts' =>
      refine .cons ⟨ht'.kind.trans ht.kind.symm, fun hk => ?_⟩ (ih hts')
      rw [ht'.text, ht.text, respell_eq (ht.kind ▸ hk)]

/-- The end marker is there already. -/
theorem marked_of_means {tokens : List Token}
    (h : List.Forall₂ d.Means (ts ++ [(.endOfInput, "")]) tokens) :
    Token.marked tokens = tokens := by
  have hreverse := List.forall₂_reverse_iff.2 h
  rw [List.reverse_append] at hreverse
  obtain ⟨marker, others, hmarker, -, heq⟩ := List.forall₂_cons_left_iff.1 hreverse
  have hlast : tokens.getLast? = some marker := by rw [← List.head?_reverse, heq, List.head?_cons]
  rw [Token.marked, hlast]
  exact if_pos hmarker.kind

end Dialect

/-! ## One language -/

/-- Tokens that are written under two dialects are one program, or they are none under either, and
the errors say the same about the token at the same index. -/
theorem Program.ofSource_spell (d d' : Dialect) {ts : List (Kind × String)}
    (h : ∀ t ∈ ts, t.1.Allows t.2) :
    (∃ program, ofSource d (d.spell ts) = .ok program ∧
        ofSource d' (d'.spell ts) = .ok program) ∨
      ∃ tokens tokens' e e' i,
        (tokenize d (d.spell ts) = .ok tokens ∧
          List.Forall₂ d.Means (ts ++ [(.endOfInput, "")]) tokens) ∧
        (tokenize d' (d'.spell ts) = .ok tokens' ∧
          List.Forall₂ d'.Means (ts ++ [(.endOfInput, "")]) tokens') ∧
        ofSource d (d.spell ts) = .error e ∧ ofSource d' (d'.spell ts) = .error e' ∧
        e.cause.Alike e'.cause ∧ e.Names tokens i ∧ e'.Names tokens' i := by
  obtain ⟨tokens, hscan, hmeans⟩ := d.tokenize_spell h
  obtain ⟨tokens', hscan', hmeans'⟩ := d'.tokenize_spell h
  have halike := Dialect.alike_of_means hmeans hmeans'
  have hsource : ofSource d (d.spell ts) = ofTokens tokens := by rw [ofSource, hscan]
  have hsource' : ofSource d' (d'.spell ts) = ofTokens tokens' := by rw [ofSource, hscan']
  rw [hsource, hsource']
  obtain hprogram | ⟨e, e', he, he', hcause⟩ := ofTokens_alike halike
  · exact .inl hprogram
  · obtain ⟨i, hnames, hnames'⟩ := error_place halike he he'
    rw [Dialect.marked_of_means hmeans] at hnames
    rw [Dialect.marked_of_means hmeans'] at hnames'
    exact .inr ⟨tokens, tokens', e, e', i, ⟨hscan, hmeans⟩, ⟨hscan', hmeans'⟩, he, he', hcause,
      hnames, hnames'⟩

/-- In `let x = while` and in `set x = during` an expression is missing at the fourth token. -/
theorem Program.ofSource_spell_missing :
    ∃ tokens tokens' i, tokenize .standard "let x = while" = .ok tokens ∧
      tokenize .prose "set x = during" = .ok tokens' ∧
      SyntaxError.Names ⟨.expectedExpression .whileKeyword "while", ⟨8, 13⟩⟩ tokens i ∧
      SyntaxError.Names ⟨.expectedExpression .whileKeyword "during", ⟨8, 14⟩⟩ tokens' i := by
  let ts : List (Kind × String) :=
    [(.letKeyword, ""), (.identifier, "x"), (.equals, ""), (.whileKeyword, "")]
  have hidentifier : Kind.Allows .identifier "x" :=
    ⟨by decide, List.all_eq_true.1 (by decide), fun d => by cases d <;> decide⟩
  have hallows : ∀ t ∈ ts, t.1.Allows t.2 := by simpa [ts, Kind.Allows] using hidentifier
  have hspell : Dialect.standard.spell ts = "let x = while" := by cbv
  have hspell' : Dialect.prose.spell ts = "set x = during" := by cbv
  have htokens : tokenize .standard "let x = while" =
      .ok [⟨.letKeyword, "let", ⟨0, 3⟩⟩, ⟨.identifier, "x", ⟨4, 5⟩⟩, ⟨.equals, "=", ⟨6, 7⟩⟩,
        ⟨.whileKeyword, "while", ⟨8, 13⟩⟩, ⟨.endOfInput, "", ⟨13, 13⟩⟩] := by
    decide +kernel
  have htokens' : tokenize .prose "set x = during" =
      .ok [⟨.letKeyword, "set", ⟨0, 3⟩⟩, ⟨.identifier, "x", ⟨4, 5⟩⟩, ⟨.equals, "=", ⟨6, 7⟩⟩,
        ⟨.whileKeyword, "during", ⟨8, 14⟩⟩, ⟨.endOfInput, "", ⟨14, 14⟩⟩] := by
    decide +kernel
  obtain ⟨program, hprogram, -⟩ |
      ⟨tokens, tokens', e, e', i, ⟨hscan, -⟩, ⟨hscan', -⟩, he, he', -, hnames, hnames'⟩ :=
    ofSource_spell .standard .prose hallows
  · rw [hspell, ofSource, htokens] at hprogram
    cases hprogram
  · rw [hspell] at hscan he
    rw [hspell'] at hscan' he'
    rw [ofSource, htokens] at he
    rw [ofSource, htokens'] at he'
    cases he
    cases he'
    exact ⟨tokens, tokens', i, hscan, hscan', hnames, hnames'⟩

end DialectScript
