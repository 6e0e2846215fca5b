import DialectScript.Proofs.Lexemes
import DialectScript.Token.Scan
import Mathlib.Logic.Relation

/-!
# Where a scan goes, and where it fails

A position (`Position`) is a place in a source together with the dialect in effect there. From it
the scan goes to the place behind the longest lexeme (`Position.Cuts`): behind white space or a
token (`Position.Passes`), or behind a switch word, where the other dialect takes over
(`Position.Switches`). At a quote that is the last of the source, and at a character that belongs
to no lexeme, it fails (`Position.Fails`). None of this mentions the scanner.

**Theorem (`tokenize_fails`).** Scanning ends with an error if and only if a position that is
reached from the start fails with it. No position is reached beyond one that fails.

The scanner goes in segments and throws away the tokens before a switch word; the positions
know neither. One segment is followed by induction on its recursion (`Token.segment_describes`),
the whole scan by induction on its restarts (`Token.scanFrom_describes`). For the converse,
positions follow one another in one way only (`Position.next_rightUnique`), and neither a position
that fails nor the end of the source has a next one.
-/

namespace DialectScript

open Lexeme

/-! ## What a lexeme means -/

/-- The text of the token that a lexeme makes: a string loses its quotes. -/
def Shape.text : Shape → List Char → String
  | .string, chars => .ofList (chars.drop 1).dropLast
  | _, chars => .ofList chars

namespace Dialect

variable {d target : Dialect} {letters : List Char}

/-- The kind of the token that a lexeme makes; none for white space, an open string and the
switch word. -/
def kind? (d : Dialect) : Shape → List Char → Option Kind
  | .word, letters =>
    match d.classify letters with
    | .keyword kind => some kind
    | .identifier => some .identifier
    | .switch _ => none
  | .number, _ => some .number
  | .string, _ => some .string
  | .symbol kind, _ => some kind
  | .blank, _ | .openString, _ => none

theorem classify_eq_switch_iff :
    d.classify letters = .switch target ↔
      Word.spells letters d.switchWord = true ∧ target = d.target := by
  unfold classify
  split
  · next h => simp [h, eq_comm]
  · next h => split <;> simp [h]

theorem kind?_switchWord (h : Word.spells letters d.switchWord = true) :
    d.kind? .word letters = none := by
  simp [kind?, classify_eq_switch_iff.2 ⟨h, rfl⟩]

end Dialect

/-! ## Positions -/

/-- A place in a source, and the dialect in effect there. -/
structure Position where
  dialect : Dialect
  before : List Char
  after : List Char

namespace Position

open Text (byteLength)

variable {source : String} {p q r : Position} {ts us : List Token} {t : Token}
variable {shape shape' : Shape} {chars chars' : List Char} {e e' : LexicalError}

/-- The start of a source. -/
def start (d : Dialect) (source : String) : Position := ⟨d, [], source.toList⟩

/-- The position belongs to the source. -/
def In (p : Position) (source : String) : Prop := p.before ++ p.after = source.toList

theorem start_in (d : Dialect) (source : String) : (start d source).In source := rfl

/-- The other position stands behind the longest lexeme at this one. -/
structure Cuts (p : Position) (shape : Shape) (chars : List Char) (q : Position) : Prop where
  longest : Longest p.after shape chars
  before : q.before = p.before ++ chars
  after : p.after = chars ++ q.after

/-- The other position stands behind white space or behind a token, which is given. -/
inductive Passes (p : Position) : List Token → Position → Prop
  | blank {chars : List Char} {q : Position} :
      p.Cuts .blank chars q → q.dialect = p.dialect → Passes p [] q
  | token {shape : Shape} {chars : List Char} {kind : Kind} {q : Position} :
      p.Cuts shape chars q → q.dialect = p.dialect → p.dialect.kind? shape chars = some kind →
      Passes p [⟨kind, shape.text chars, ⟨byteLength p.before, byteLength q.before⟩⟩] q

/-- The other position stands behind the switch word, under the dialect that it leads to. -/
def Switches (p q : Position) : Prop :=
  ∃ letters, p.Cuts .word letters q ∧ Word.spells letters p.dialect.switchWord = true ∧
    q.dialect = p.dialect.target

/-- The next position of the scan. -/
def Next (p q : Position) : Prop := (∃ ts, p.Passes ts q) ∨ p.Switches q

/-- The positions to which a scan comes. -/
abbrev Reaches : Position → Position → Prop := Relation.ReflTransGen Next

/-- The scan cannot go on, for the given cause. -/
inductive Fails (source : String) : Position → LexicalError → Prop
  | unterminated {d : Dialect} {before cs : List Char} :
      '"' ∉ cs →
      Fails source ⟨d, before, '"' :: cs⟩
        ⟨.unterminatedString, ⟨byteLength before, source.utf8ByteSize⟩⟩
  | unexpected {d : Dialect} {before cs : List Char} {c : Char} :
      Classless c → (∀ entry ∈ Kind.symbols, ¬ entry.2 <+: c :: cs) →
      Fails source ⟨d, before, c :: cs⟩
        ⟨.unexpectedCharacter c, ⟨byteLength before, byteLength before + c.utf8Size⟩⟩

/-- The tokens that are passed on the way, without a switch word between. -/
inductive Traverses : Position → List Token → Position → Prop
  | refl (p : Position) : Traverses p [] p
  | step {p q r : Position} {ts us : List Token} :
      p.Passes ts q → Traverses q us r → Traverses p (ts ++ us) r

/-- The other position is this one, or stands behind a switch word that is reached. -/
def Restarts (p r : Position) : Prop := r = p ∨ ∃ q, p.Reaches q ∧ q.Switches r

/-! ## Cuts -/

theorem Cuts.in (h : p.Cuts shape chars q) (hp : p.In source) : q.In source := by
  rw [In, h.before, List.append_assoc, ← h.after]
  exact hp

theorem Cuts.before_length_lt (h : p.Cuts shape chars q) :
    p.before.length < q.before.length := by
  have hpos := List.length_pos_iff.2 h.longest.allowed.ne_nil
  rw [h.before, List.length_append]
  omega

theorem Cuts.unique (h : p.Cuts shape chars q) (h' : p.Cuts shape' chars' r) :
    shape = shape' ∧ chars = chars' ∧ q.before = r.before ∧ q.after = r.after := by
  obtain ⟨rfl, rfl⟩ := h.longest.unique h'.longest
  exact ⟨rfl, rfl, h.before.trans h'.before.symm,
    List.append_cancel_left (h.after.symm.trans h'.after)⟩

theorem Cuts.after_ne_nil (h : p.Cuts shape chars q) : p.after ≠ [] := by
  rw [h.after]
  exact List.append_ne_nil_of_left_ne_nil h.longest.allowed.ne_nil _

theorem Passes.cuts (h : p.Passes ts q) :
    ∃ shape chars, p.Cuts shape chars q ∧ shape ≠ .openString ∧ q.dialect = p.dialect := by
  cases h with
  | blank hcuts hdialect => exact ⟨_, _, hcuts, by decide, hdialect⟩
  | token hcuts hdialect hkind =>
    refine ⟨_, _, hcuts, ?_, hdialect⟩
    rintro rfl
    cases hkind

theorem Next.cuts (h : p.Next q) : ∃ shape chars, p.Cuts shape chars q ∧ shape ≠ .openString := by
  obtain ⟨ts, hpasses⟩ | ⟨letters, hcuts, -, -⟩ := h
  · obtain ⟨shape, chars, hcuts, hshape, -⟩ := hpasses.cuts
    exact ⟨shape, chars, hcuts, hshape⟩
  · exact ⟨.word, letters, hcuts, by decide⟩

/-! ## One way only -/

theorem Passes.not_switches (h : p.Passes ts q) : ¬ p.Switches r := by
  rintro ⟨letters, hcuts', hspells, -⟩
  cases h with
  | blank hcuts _ => cases (hcuts.unique hcuts').1
  | token hcuts _ hkind =>
    obtain ⟨rfl, rfl, -, -⟩ := hcuts.unique hcuts'
    rw [Dialect.kind?_switchWord hspells] at hkind
    cases hkind

theorem Next.dialect_eq (hq : p.Next q) (hr : p.Next r) : q.dialect = r.dialect := by
  obtain ⟨ts, hq⟩ | hq := hq <;> obtain ⟨us, hr⟩ | hr := hr
  · obtain ⟨_, _, -, -, hqd⟩ := hq.cuts
    obtain ⟨_, _, -, -, hrd⟩ := hr.cuts
    exact hqd.trans hrd.symm
  · exact absurd hr hq.not_switches
  · exact absurd hq hr.not_switches
  · obtain ⟨_, -, -, hqd⟩ := hq
    obtain ⟨_, -, -, hrd⟩ := hr
    exact hqd.trans hrd.symm

/-- Positions follow one another in one way. -/
theorem next_rightUnique : Relator.RightUnique Next := by
  intro p q r hq hr
  obtain ⟨_, _, hcuts, -⟩ := hq.cuts
  obtain ⟨_, _, hcuts', -⟩ := hr.cuts
  obtain ⟨-, -, hbefore, hafter⟩ := hcuts.unique hcuts'
  have hdialect := hq.dialect_eq hr
  cases q
  cases r
  simp_all

theorem not_next_of_end (h : p.after = []) : ¬ p.Next q := fun hnext => by
  obtain ⟨_, _, hcuts, -⟩ := hnext.cuts
  exact hcuts.after_ne_nil h

/-- Where the scan fails, the longest lexeme is none that can be passed. -/
theorem Fails.shape_eq (h : p.Fails source e) (hlongest : Longest p.after shape chars) :
    shape = .openString := by
  cases h with
  | @unterminated _ _ cs hcs =>
    have hopen : Longest ('"' :: cs) (quoted cs).shape (quoted cs).chars := longest_quoted
    rw [quoted_eq_openString hcs] at hopen
    exact (hlongest.unique hopen).1
  | unexpected hc hsymbols =>
    obtain ⟨kind, rfl⟩ := (starts_of_head hlongest.allowed hlongest.head).eq_symbol hc
    cases hlongest.allowed with
    | symbol hmem => exact absurd hlongest.head (hsymbols _ hmem)

theorem Fails.not_next (h : p.Fails source e) : ¬ p.Next q := fun hnext => by
  obtain ⟨_, _, hcuts, hshape⟩ := hnext.cuts
  exact hshape (h.shape_eq hcuts.longest)

theorem Fails.after_ne_nil (h : p.Fails source e) : p.after ≠ [] := by
  cases h <;> exact List.cons_ne_nil _ _

theorem Fails.unique (h : p.Fails source e) (h' : p.Fails source e') : e = e' := by
  cases h with
  | unterminated _ =>
    cases h' with
    | unterminated _ => rfl
    | unexpected hc _ => exact absurd rfl hc.not_quote
  | unexpected hc _ =>
    cases h' with
    | unterminated _ => exact absurd rfl hc.not_quote
    | unexpected _ _ => rfl

/-! ## Positions that are reached -/

theorem Next.in (h : p.Next q) (hp : p.In source) : q.In source := by
  obtain ⟨_, _, hcuts, -⟩ := h.cuts
  exact hcuts.in hp

theorem Reaches.in (h : p.Reaches q) (hp : p.In source) : q.In source := by
  induction h with
  | refl => exact hp
  | tail _ hnext ih => exact hnext.in ih

theorem Reaches.before_grows (h : p.Reaches q) : p.before <+: q.before := by
  induction h with
  | refl => exact List.prefix_rfl
  | tail _ hnext ih =>
    obtain ⟨_, chars, hcuts, -⟩ := hnext.cuts
    exact ih.trans ⟨chars, hcuts.before.symm⟩

theorem Reaches.before_length_lt (h : p.Reaches q) (hne : q ≠ p) :
    p.before.length < q.before.length := by
  obtain heq | ⟨r, hnext, hreaches⟩ := h.cases_head
  · exact absurd heq.symm hne
  · obtain ⟨_, _, hcuts, -⟩ := hnext.cuts
    exact Nat.lt_of_lt_of_le hcuts.before_length_lt (Reaches.before_grows hreaches).length_le

theorem Traverses.reaches (h : p.Traverses ts q) : p.Reaches q := by
  induction h with
  | refl => exact .refl
  | step hpasses _ ih => exact .head (.inl ⟨_, hpasses⟩) ih

theorem Restarts.reaches (h : p.Restarts r) : p.Reaches r := by
  obtain rfl | ⟨q, hreaches, hswitches⟩ := h
  · exact .refl
  · exact hreaches.tail (.inr hswitches)

/-- From where nothing follows, everything that is reached lies before it. -/
theorem Reaches.reaches_of_stuck (hq : p.Reaches q) (hr : p.Reaches r) (hstuck : ∀ s, ¬ r.Next s) :
    q.Reaches r := by
  obtain h | h := hq.total_of_right_unique next_rightUnique hr
  · exact h
  · obtain rfl | ⟨s, hnext, -⟩ := h.cases_head
    · exact .refl
    · exact absurd hnext (hstuck s)

end Position

/-! ## The scanner follows the positions -/

namespace Token

open Text (byteLength)
open Position

variable {source : String} {p q : Position} {ts : List Token} {t : Token} {s : Segment}

/-! ### One step of a segment -/

section Step

variable {d target : Dialect} {offset : Nat} {cs : List Char} {l : Lexeme} {kind : Kind}

theorem segment_end : segment d offset [] = .finished [endOfInput (Span.clamp offset)] := by
  rw [segment]
  rfl

theorem segment_unexpected {c : Char} (hnone : first? (c :: cs) = none) :
    segment d offset (c :: cs) =
      .failed ⟨.unexpectedCharacter c, .ofRange offset (offset + c.utf8Size)⟩ := by
  rw [segment]
  split
  · rfl
  · next hl => cases hnone.symm.trans hl

theorem segment_blank (hl : first? cs = some l) (hshape : l.shape = .blank) :
    segment d offset cs = segment d (offset + byteLength l.chars) l.rest := by
  rw [segment]
  split
  · next hnone => cases hnone.symm.trans hl
  · next l' hl' =>
    cases hl.symm.trans hl'
    simp only [hshape]

theorem segment_unterminated (hl : first? cs = some l) (hshape : l.shape = .openString) :
    segment d offset cs =
      .failed ⟨.unterminatedString, .ofRange offset (offset + byteLength l.chars)⟩ := by
  rw [segment]
  split
  · next hnone => cases hnone.symm.trans hl
  · next l' hl' =>
    cases hl.symm.trans hl'
    simp only [hshape]

theorem segment_switch (hl : first? cs = some l) (hshape : l.shape = .word)
    (hswitch : d.classify l.chars = .switch target) :
    segment d offset cs = .switched target (offset + byteLength l.chars) l.rest := by
  rw [segment]
  split
  · next hnone => cases hnone.symm.trans hl
  · next l' hl' =>
    cases hl.symm.trans hl'
    simp only [hshape, hswitch]

theorem segment_token (hl : first? cs = some l) (hkind : d.kind? l.shape l.chars = some kind) :
    segment d offset cs =
      (segment d (offset + byteLength l.chars) l.rest).cons
        ⟨kind, l.shape.text l.chars, .ofRange offset (offset + byteLength l.chars)⟩ := by
  rw [segment]
  split
  · next hnone => cases hnone.symm.trans hl
  · next l' hl' =>
    cases hl.symm.trans hl'
    unfold Dialect.kind? at hkind
    cases hshape : l.shape with
    | blank | openString => rw [hshape] at hkind; cases hkind
    | number | string | symbol _ => rw [hshape] at hkind; cases hkind; rfl
    | word =>
      rw [hshape] at hkind
      dsimp only at hkind
      cases hclassify : d.classify l.chars with
      | switch _ => rw [hclassify] at hkind; cases hkind
      | keyword _ | identifier => rw [hclassify] at hkind; cases hkind; rfl

end Step

/-! ### Where a segment goes -/

/-- What the end of a segment says about the position where it ends, and about the tokens that
were passed. -/
def Segment.Ends (source : String) (ts : List Token) (q : Position) : Segment → Prop
  | .finished tokens => q.after = [] ∧ tokens = ts ++ [endOfInput source.utf8ByteSize]
  | .failed error => q.Fails source error
  | .switched target offset rest =>
    ∃ r, q.Switches r ∧ r.dialect = target ∧ byteLength r.before = offset ∧ r.after = rest

/-- The segment begins at the position. -/
def Segment.Describes (source : String) (p : Position) (s : Segment) : Prop :=
  ∃ ts q, p.Traverses ts q ∧ s.Ends source ts q

theorem Segment.Describes.blank (h : s.Describes source q) (hpasses : p.Passes [] q) :
    s.Describes source p := by
  obtain ⟨ts, r, htraverses, hends⟩ := h
  exact ⟨ts, r, .step hpasses htraverses, hends⟩

theorem Segment.Describes.cons (h : s.Describes source q) (hpasses : p.Passes [t] q) :
    (s.cons t).Describes source p := by
  obtain ⟨ts, r, htraverses, hends⟩ := h
  refine ⟨t :: ts, r, .step hpasses htraverses, ?_⟩
  cases s with
  | finished tokens =>
    obtain ⟨hend, rfl⟩ := hends
    exact ⟨hend, rfl⟩
  | failed _ | switched _ _ _ => exact hends

variable {d d' : Dialect} {before cs : List Char} {l : Lexeme} {kind : Kind}
variable {shape : Shape}

theorem byteLength_add (hin : before ++ cs = source.toList) :
    byteLength before + byteLength cs = source.utf8ByteSize := by
  rw [← Text.byteLength_toList, ← hin, Text.byteLength_append]

theorem rest_in (hin : before ++ cs = source.toList) (hl : first? cs = some l) :
    before ++ l.chars ++ l.rest = source.toList := by
  rw [List.append_assoc, chars_append_rest hl, hin]

theorem cuts_of_first? (hl : first? cs = some l) :
    Cuts ⟨d, before, cs⟩ l.shape l.chars ⟨d', before ++ l.chars, l.rest⟩ where
  longest := longest_of_first? hl
  before := rfl
  after := (chars_append_rest hl).symm

/-- A lexeme that makes a token is passed; within the limit, its span is recorded as it is. -/
theorem passes_of_first? (hsize : source.utf8ByteSize ≤ Span.limit)
    (hin : before ++ cs = source.toList) (hl : first? cs = some l) (hshape : l.shape = shape)
    (hkind : d.kind? shape l.chars = some kind) :
    Passes ⟨d, before, cs⟩
      [⟨kind, shape.text l.chars,
        .ofRange (byteLength before) (byteLength before + byteLength l.chars)⟩]
      ⟨d, before ++ l.chars, l.rest⟩ := by
  subst hshape
  have htotal := byteLength_add (rest_in hin hl)
  rw [Text.byteLength_append] at htotal
  rw [Span.ofRange_eq_mk (by omega) (by omega), ← Text.byteLength_append]
  exact .token (cuts_of_first? hl) rfl hkind

/-- Where no lexeme starts, the scan fails at the character. -/
theorem fails_of_first?_eq_none {c : Char} (hnone : first? (c :: cs) = none) :
    Fails source ⟨d, before, c :: cs⟩
      ⟨.unexpectedCharacter c, ⟨byteLength before, byteLength before + c.utf8Size⟩⟩ := by
  have hforms := first?_eq_none_iff.1 hnone
  have hone : ∀ shape : Shape, ¬ shape.Matches [c] := fun shape hm =>
    hforms shape [c] hm (List.prefix_append [c] cs)
  refine .unexpected ⟨?_, ?_, ?_, ?_⟩ fun entry hmem =>
    hforms (.symbol entry.1) entry.2 (.symbol hmem)
  · exact Bool.eq_false_iff.2 fun hc => hone .blank (.blank (List.cons_ne_nil _ _) (by simpa))
  · exact Bool.eq_false_iff.2 fun hc => hone .word (.word (List.cons_ne_nil _ _) (by simpa))
  · exact Bool.eq_false_iff.2 fun hc => hone .number (.number (List.cons_ne_nil _ _) (by simpa))
  · rintro rfl
    exact hone .openString (.openString (List.not_mem_nil))

/-- An open string takes the rest of the source, in which no quote closes it. -/
theorem eq_of_longest_openString {chars : List Char} (h : Longest cs .openString chars) :
    ∃ body, '"' ∉ body ∧ cs = '"' :: body ∧ chars = '"' :: body := by
  obtain ⟨rest, rfl⟩ := h.head
  cases h.allowed with
  | @openString body _ =>
    have hquoted : Longest ('"' :: (body ++ rest)) _ _ := longest_quoted
    have hunique := h.unique hquoted
    by_cases hquote : '"' ∈ body ++ rest
    · obtain ⟨inner, outer, hsplit, hinner⟩ := List.eq_append_cons_of_mem hquote
      rw [hsplit, quoted_eq_string hinner] at hunique
      cases hunique.1
    · rw [quoted_eq_openString hquote] at hunique
      exact ⟨body ++ rest, hquote, rfl, hunique.2⟩

/-- A segment goes where the positions go. The induction is on the recursion of the scanner, over
the position that the text has in the source. -/
theorem segment_describes (hsize : source.utf8ByteSize ≤ Span.limit) {offset : Nat}
    (hin : before ++ cs = source.toList) (hoffset : offset = byteLength before) :
    (segment d offset cs).Describes source ⟨d, before, cs⟩ := by
  -- Along the scan, what has been read is kept in front, and its length is the offset.
  fun_induction segment d offset cs generalizing before with
  | case1 offset _ hnone =>
    subst hoffset
    have htotal := byteLength_add hin
    rw [Text.byteLength_nil, Nat.add_zero] at htotal
    rw [htotal, Span.clamp_eq_self hsize]
    exact ⟨[], _, .refl _, rfl, rfl⟩
  | case2 offset c cs _ hnone =>
    subst hoffset
    have htotal := byteLength_add hin
    rw [Text.byteLength_cons] at htotal
    rw [Span.ofRange_eq_mk (by omega) (by omega)]
    exact ⟨[], _, .refl _, fails_of_first?_eq_none hnone⟩
  | case3 offset cs l hl stop hshape =>
    rename_i ih
    subst hoffset
    exact (ih (rest_in hin hl) (Text.byteLength_append ..).symm).blank
      (.blank (hshape ▸ cuts_of_first? hl) rfl)
  | case4 offset cs l hl stop span =>
    rename_i hshape
    subst hoffset
    obtain ⟨body, hbody, rfl, hchars⟩ := eq_of_longest_openString (hshape ▸ longest_of_first? hl)
    have htotal := byteLength_add hin
    have hspan : span = ⟨byteLength before, source.utf8ByteSize⟩ := by
      rw [← htotal, ← hchars]
      rw [← hchars] at htotal
      exact Span.ofRange_eq_mk (by omega) (htotal.le.trans hsize)
    rw [hspan]
    exact ⟨[], _, .refl _, .unterminated hbody⟩
  | case5 offset cs l hl stop span hshape | case6 offset cs l hl stop span hshape
  | case7 offset cs l hl stop span kind hshape =>
    rename_i ih
    subst hoffset
    exact (ih (rest_in hin hl) (Text.byteLength_append ..).symm).cons
      (passes_of_first? hsize hin hl hshape rfl)
  | case8 offset cs l hl stop hshape target =>
    rename_i hswitch
    subst hoffset
    obtain ⟨hspells, rfl⟩ := Dialect.classify_eq_switch_iff.1 hswitch
    exact ⟨[], _, .refl _, ⟨d.target, before ++ l.chars, l.rest⟩,
      ⟨l.chars, hshape ▸ cuts_of_first? hl, hspells, rfl⟩, rfl, Text.byteLength_append .., rfl⟩
  | case9 offset cs l hl stop span hshape kind hkeyword =>
    rename_i ih
    subst hoffset
    exact (ih (rest_in hin hl) (Text.byteLength_append ..).symm).cons
      (passes_of_first? hsize hin hl hshape (by simp [Dialect.kind?, hkeyword]))
  | case10 offset cs l hl stop span hshape hidentifier =>
    rename_i ih
    subst hoffset
    exact (ih (rest_in hin hl) (Text.byteLength_append ..).symm).cons
      (passes_of_first? hsize hin hl hshape (by simp [Dialect.kind?, hidentifier]))

/-- The whole scan goes where the positions go. The induction is on the restarts. -/
theorem scanFrom_describes (hsize : source.utf8ByteSize ≤ Span.limit) {offset : Nat}
    (hin : before ++ cs = source.toList) (hoffset : offset = byteLength before) :
    (∀ e, scanFrom d offset cs = .error e →
      ∃ q, Reaches ⟨d, before, cs⟩ q ∧ q.Fails source e) ∧
    ∀ tokens, scanFrom d offset cs = .ok tokens →
      ∃ p ts q, Restarts ⟨d, before, cs⟩ p ∧ p.Traverses ts q ∧ q.after = [] ∧
        tokens = ts ++ [endOfInput source.utf8ByteSize] := by
  have hsegment : (segment d offset cs).Describes source ⟨d, before, cs⟩ :=
    segment_describes hsize hin hoffset
  fun_induction scanFrom d offset cs generalizing before with
  | case1 d offset cs tokens hfinished =>
    rw [hfinished] at hsegment
    obtain ⟨ts, q, htraverses, hend, rfl⟩ := hsegment
    refine ⟨fun e he => (by cases he), fun tokens' he => ?_⟩
    cases he
    exact ⟨_, ts, q, .inl rfl, htraverses, hend, rfl⟩
  | case2 d offset cs error hfailed =>
    rw [hfailed] at hsegment
    refine ⟨fun e he => ?_, fun tokens he => (by cases he)⟩
    cases he
    obtain ⟨ts, q, htraverses, hfails⟩ := hsegment
    exact ⟨q, htraverses.reaches, hfails⟩
  | case3 d offset cs target offset' rest hswitched ih =>
    rw [hswitched] at hsegment
    obtain ⟨ts, q, htraverses, ⟨d', before', cs'⟩, hswitches, rfl, rfl, rfl⟩ := hsegment
    have hnext : Reaches ⟨d, before, cs⟩ ⟨d', before', cs'⟩ :=
      htraverses.reaches.tail (.inr hswitches)
    have hin' := Reaches.in hnext hin
    obtain ⟨herror, hok⟩ := ih hin' rfl (segment_describes hsize hin' rfl)
    refine ⟨fun e he => ?_, fun tokens he => ?_⟩
    · obtain ⟨r, hr, hfails⟩ := herror e he
      exact ⟨r, hnext.trans hr, hfails⟩
    · obtain ⟨p, ts, r, hp, hrest⟩ := hok tokens he
      refine ⟨p, ts, r, .inr ?_, hrest⟩
      obtain rfl | ⟨s, hs, hsp⟩ := hp
      · exact ⟨q, htraverses.reaches, hswitches⟩
      · exact ⟨s, hnext.trans hs, hsp⟩

end Token

/-! ## When scanning fails -/

open Position

/-- A scan goes from the start of the source where the positions go. -/
theorem tokenize_describes {source : String} (hsize : source.utf8ByteSize ≤ Span.limit)
    (d : Dialect) :
    (∀ e, tokenize d source = .error e →
      ∃ q, (Position.start d source).Reaches q ∧ q.Fails source e) ∧
    ∀ tokens, tokenize d source = .ok tokens →
      ∃ p ts q, (Position.start d source).Restarts p ∧ p.Traverses ts q ∧ q.after = [] ∧
        tokens = ts ++ [Token.endOfInput source.utf8ByteSize] :=
  Token.scanFrom_describes hsize (start_in d source) rfl

/-- A source within the limit has no tokens, for a given cause, if and only if the scan comes to
a position that fails with it. Such a position is the first: what else is reached lies before it
and does not fail. -/
theorem tokenize_fails {source : String} (hsize : source.utf8ByteSize ≤ Span.limit)
    (d : Dialect) :
    (∀ e, tokenize d source = .error e ↔
      ∃ p, (Position.start d source).Reaches p ∧ p.Fails source e) ∧
    (∀ p, (Position.start d source).Reaches p → p.In source) ∧
    ∀ p e, (Position.start d source).Reaches p → p.Fails source e →
      ∀ q, (Position.start d source).Reaches q → q ≠ p →
        q.before <+: p.before ∧ q.before.length < p.before.length ∧ ∀ e', ¬ q.Fails source e' := by
  obtain ⟨hsound, hok⟩ := tokenize_describes hsize d
  have hfirst : ∀ p e, (Position.start d source).Reaches p → p.Fails source e →
      ∀ q, (Position.start d source).Reaches q → q.Reaches p := fun p e hp hfails q hq =>
    Reaches.reaches_of_stuck hq hp fun _ => hfails.not_next
  -- Where the scan fails it goes no further, so it comes through every other position before.
  refine ⟨fun e => ⟨hsound e, ?_⟩, fun p hp => Reaches.in hp (start_in d source), ?_⟩
  · rintro ⟨p, hp, hfails⟩
    cases hresult : tokenize d source with
    | error e' =>
      obtain ⟨q, hq, hfails'⟩ := hsound e' hresult
      have hqp := hfirst p e hp hfails q hq
      obtain rfl | ⟨_, hnext, -⟩ := hqp.cases_head
      · rw [hfails.unique hfails']
      · exact absurd hnext hfails'.not_next
    | ok tokens =>
      obtain ⟨r, ts, q, hrestarts, htraverses, hend, -⟩ := hok tokens hresult
      have hqp := hfirst p e hp hfails q (hrestarts.reaches.trans htraverses.reaches)
      obtain rfl | ⟨_, hnext, -⟩ := hqp.cases_head
      · exact absurd hend hfails.after_ne_nil
      · exact absurd hnext (not_next_of_end hend)
  · intro p e hp hfails q hq hne
    have hqp := hfirst p e hp hfails q hq
    refine ⟨Reaches.before_grows hqp, Reaches.before_length_lt hqp hne.symm, fun e' hfails' => ?_⟩
    obtain rfl | ⟨_, hnext, -⟩ := hqp.cases_head
    · exact hne rfl
    · exact hfails'.not_next hnext

/-- In front of a switch word, a lone ampersand is an error all the same. -/
theorem tokenize_fails_lone_ampersand :
    ∃ p, (Position.start .standard "set & prose \"é").Reaches p ∧
      p.Fails "set & prose \"é" ⟨.unexpectedCharacter '&', ⟨4, 5⟩⟩ :=
  ((tokenize_fails (by decide) .standard).1 _).1 (by decide +kernel)

end DialectScript
