import DialectScript.Proofs.FirstError
import DialectScript.Proofs.Tiling
import DialectScript.Report

/-!
# Where the errors of a source point

**Theorem (`Program.ofSource_error`).** The place of an error lies in the source, begins and ends
between two characters, and is not moved by the clamp that reports apply. There stands what the
error says: the token that was found, the declaration of a constant, the character that starts no
lexeme, or the string that is not closed.

An error names one of the tokens that were passed, or the end marker behind them
(`Program.exists_before`). To each of them belongs a position that the scan reaches and that stands
in front of it (`Position.Traverses.append_cons`). Between the keyword and the name of a constant
nothing is passed but white space (`Position.Traverses.blanks`).
-/

namespace DialectScript

open Lexeme
open Text (byteLength)

/-! ## What an error says -/

/-- The text that a token of the kind is read from, and what follows it: a string has its quotes
again, and the end marker stands for nothing, at the end. -/
def Kind.Shows (kind : Kind) (text : String) (slice after : List Char) : Prop :=
  match kind with
  | .string => slice = '"' :: (text.toList ++ ['"'])
  | .endOfInput => text = "" ∧ slice = [] ∧ after = []
  | _ => slice = text.toList

/-- The text that the cause speaks of, and what follows it. -/
def SyntaxCause.Shows (d : Dialect) (slice after : List Char) : SyntaxCause → Prop
  | .lexical (.unexpectedCharacter c) => slice = [c]
  | .lexical .unterminatedString => ∃ body, slice = '"' :: body ∧ '"' ∉ body ∧ after = []
  | .unexpectedToken _ found text => found.Shows text slice after
  | .expectedExpression found text => found.Shows text slice after
  | .invalidParameter found text => found.Shows text slice after
  | .invalidNumber text => slice = text.toList
  | .missingInitializer name => ∃ keyword blanks spelling,
      slice = keyword ++ blanks ++ name.toList ∧ (∀ c ∈ blanks, isBlank c = true) ∧
        (spelling, .constKeyword) ∈ d.keywords ∧ Word.spells keyword spelling = true

/-- The text stands at the position, and the span covers it. -/
structure Span.Marks (span : Span) (p : Position) (slice after : List Char) : Prop where
  split : p.after = slice ++ after
  span_eq : span = ⟨byteLength p.before, byteLength (p.before ++ slice)⟩

/-! ## Spans that cover a text of the source -/

/-- A byte offset behind some characters of a source lies between two characters. -/
theorem Text.isValid_byteLength {source : String} {before after : List Char}
    (h : source.toList = before ++ after) :
    String.Pos.Raw.IsValid source ⟨byteLength before⟩ := by
  refine String.Pos.Raw.isValid_iff_exists_append.2 ⟨.ofList before, .ofList after, ?_, ?_⟩
  · rw [← String.ofList_append, ← h, String.ofList_toList]
  · rw [String.rawEndPos, Text.utf8ByteSize_ofList]

namespace Span.Marks

variable {source : String} {span : Span} {p : Position} {slice after : List Char}

theorem source_eq (h : span.Marks p slice after) (hp : p.In source) :
    source.toList = p.before ++ slice ++ after := by
  rw [List.append_assoc, ← h.split]
  exact hp.symm

theorem start_le_stop (h : span.Marks p slice after) : span.start ≤ span.stop := by
  rw [h.span_eq, Text.byteLength_append]
  exact Nat.le_add_right _ _

theorem stop_le (h : span.Marks p slice after) (hp : p.In source) :
    span.stop ≤ source.utf8ByteSize := by
  rw [← Text.byteLength_toList, h.source_eq hp, h.span_eq, Text.byteLength_append _ after]
  exact Nat.le_add_right _ _

theorem isValid_start (h : span.Marks p slice after) (hp : p.In source) :
    String.Pos.Raw.IsValid source ⟨span.start⟩ := by
  rw [h.span_eq]
  exact Text.isValid_byteLength ((h.source_eq hp).trans (List.append_assoc ..))

theorem isValid_stop (h : span.Marks p slice after) (hp : p.In source) :
    String.Pos.Raw.IsValid source ⟨span.stop⟩ := by
  rw [h.span_eq]
  exact Text.isValid_byteLength (h.source_eq hp)

end Span.Marks

/-- A report moves no span that lies in its source. -/
theorem Report.clampTo_eq_self {span : Span} {length : Nat} (hle : span.start ≤ span.stop)
    (hstop : span.stop ≤ length) : clampTo length span = span := by
  have hstart : span.start ≤ length := hle.trans hstop
  simp only [clampTo, if_pos hstart, if_pos hstop]
  split
  · next h => exact congrArg (Span.mk span.start) (Nat.le_antisymm hle h)
  · rfl

/-! ## Tokens that are passed -/

/-- A token that is no end marker is shown as it is written. -/
theorem Token.shows_written {t : Token} (h : t.kind ≠ .endOfInput) (after : List Char) :
    t.kind.Shows t.text t.written after := by
  unfold Kind.Shows Token.written
  split
  · next hstring => rw [if_pos hstring]
  · next hend => exact absurd hend h
  · next hstring _ => rw [if_neg hstring]

/-- A keyword spells a word of the dialect. -/
theorem Dialect.exists_spelling {d : Dialect} {shape : Shape} {chars : List Char} {kind : Kind}
    (hallowed : shape.Matches chars) (h : d.kind? shape chars = some kind)
    (hkeyword : kind.isKeyword = true) :
    ∃ spelling, (spelling, kind) ∈ d.keywords ∧ Word.spells chars spelling = true := by
  cases hallowed with
  | blank _ _ | openString _ => cases h
  | number _ _ | string _ =>
    cases h
    cases hkeyword
  | symbol hmem =>
    have hall : ∀ entry ∈ Kind.symbols, entry.1.isKeyword = false := by decide
    cases h
    rw [hall _ hmem] at hkeyword
    cases hkeyword
  | word _ _ =>
    simp only [kind?] at h
    split at h
    · next hclassify =>
      cases h
      exact classify_eq_keyword hclassify
    · cases h
      cases hkeyword
    · cases h

namespace Position

variable {source : String} {p q r : Position} {t : Token} {ts before behind : List Token}

/-- In front of each token that is passed, and behind it, there is a position. -/
theorem Traverses.append_cons (h : p.Traverses (before ++ t :: behind) q) :
    ∃ r s, p.Traverses before r ∧ r.Passes [t] s ∧ s.Traverses behind q := by
  generalize hts : before ++ t :: behind = ts at h
  induction h generalizing before with
  | refl p => simp at hts
  | step hpasses htraverses ih =>
    cases hpasses with
    | blank hcuts hdialect =>
      obtain ⟨r, s, hr, hrest⟩ := ih hts
      exact ⟨r, s, .step (.blank hcuts hdialect) hr, hrest⟩
    | token hcuts hdialect hkind =>
      cases before with
      | nil =>
        obtain ⟨rfl, rfl⟩ := List.cons.inj hts
        exact ⟨_, _, .refl _, .token hcuts hdialect hkind, htraverses⟩
      | cons u before =>
        obtain ⟨rfl, hrest⟩ := List.cons.inj hts
        obtain ⟨r, s, hr, hrest⟩ := ih hrest
        exact ⟨r, s, .step (.token hcuts hdialect hkind) hr, hrest⟩

/-- Where no token is passed, there is only white space. -/
theorem Traverses.blanks (h : p.Traverses [] q) :
    ∃ blanks, q.before = p.before ++ blanks ∧ p.after = blanks ++ q.after ∧
      ∀ c ∈ blanks, isBlank c = true := by
  generalize hts : [] = ts at h
  induction h with
  | refl p => exact ⟨[], (List.append_nil _).symm, rfl, by simp⟩
  | step hpasses _ ih =>
    cases hpasses with
    | token _ _ _ => cases hts
    | @blank chars _ hcuts hdialect =>
      obtain ⟨blanks, hbefore, hafter, hall⟩ := ih hts
      refine ⟨chars ++ blanks, ?_, ?_, ?_⟩
      · rw [hbefore, hcuts.before, List.append_assoc]
      · rw [hcuts.after, hafter, List.append_assoc]
      · cases hcuts.longest.allowed with
        | blank _ hchars => exact List.forall_mem_append.2 ⟨hchars, hall⟩

/-- A token that is passed is shown at its span. -/
theorem Passes.marks (h : p.Passes [t] q) :
    t.span.Marks p t.written q.after ∧ t.kind.Shows t.text t.written q.after ∧
      q.before = p.before ++ t.written := by
  cases h with
  | @token shape chars kind _ hcuts hdialect hkind =>
    have hallowed := hcuts.longest.allowed
    have hwritten :
        Token.written
          ⟨kind, shape.text chars, ⟨byteLength p.before, byteLength q.before⟩⟩ = chars :=
      Dialect.written_eq hallowed hkind
    refine ⟨?_, Token.shows_written (Dialect.kind?_kind hallowed hkind).1 _, ?_⟩
    · rw [hwritten]
      exact ⟨hcuts.after, by rw [hcuts.before]⟩
    · rw [hwritten]
      exact hcuts.before

/-- A keyword that is passed is a word of the dialect in effect. -/
theorem Passes.spells (h : p.Passes [t] q) (hkeyword : t.kind.isKeyword = true) :
    ∃ spelling, (spelling, t.kind) ∈ p.dialect.keywords ∧
      Word.spells t.written spelling = true := by
  cases h with
  | token hcuts hdialect hkind =>
    have hallowed := hcuts.longest.allowed
    rw [Dialect.written_eq hallowed hkind]
    exact Dialect.exists_spelling hallowed hkind hkeyword

/-- Every token of the source, the end marker as well, is shown at its span. -/
theorem Traverses.exists_marks (h : p.Traverses ts q) (hp : p.In source) (hend : q.after = [])
    (ht : t ∈ ts ++ [Token.endOfInput source.utf8ByteSize]) :
    ∃ r slice after, p.Reaches r ∧ t.span.Marks r slice after ∧
      t.kind.Shows t.text slice after := by
  rcases List.mem_append.1 ht with hts | hmarker
  · obtain ⟨before, behind, rfl⟩ := List.append_of_mem hts
    obtain ⟨r, s, hr, hpasses, -⟩ := h.append_cons
    obtain ⟨hmarks, hshows, -⟩ := hpasses.marks
    exact ⟨r, _, _, hr.reaches, hmarks, hshows⟩
  · obtain rfl := List.mem_singleton.1 hmarker
    have hq : q.before = source.toList := by
      have hin : q.before ++ q.after = source.toList := h.reaches.in hp
      rwa [hend, List.append_nil] at hin
    refine ⟨q, [], [], h.reaches, ⟨hend, ?_⟩, rfl, rfl, rfl⟩
    rw [List.append_nil, hq, Text.byteLength_toList]
    rfl

/-- The declaration of a constant is shown at the span from the keyword to the name. -/
theorem Traverses.exists_declaration {k name : Token}
    (h : p.Traverses (before ++ k :: name :: behind) q) (hk : k.kind = .constKeyword)
    (hname : name.kind = .identifier) :
    ∃ r slice after, p.Reaches r ∧ (k.span.merge name.span).Marks r slice after ∧
      (SyntaxCause.missingInitializer name.text).Shows r.dialect slice after := by
  obtain ⟨r, s, hr, hpasses, hs⟩ := h.append_cons
  obtain ⟨u, v, hu, hpasses', -⟩ :=
    Traverses.append_cons (show s.Traverses ([] ++ name :: behind) q from hs)
  obtain ⟨blanks, hbefore, hafter, hall⟩ := hu.blanks
  obtain ⟨hmarks, -, hsbefore⟩ := hpasses.marks
  obtain ⟨hmarks', -, -⟩ := hpasses'.marks
  obtain ⟨spelling, hmem, hspells⟩ := hpasses.spells (by rw [hk]; rfl)
  have hwritten : name.written = name.text.toList := by rw [Token.written, hname]; rfl
  refine ⟨r, k.written ++ blanks ++ name.text.toList, v.after, hr.reaches, ⟨?_, ?_⟩,
    k.written, blanks, spelling, rfl, hall, hk ▸ hmem, hspells⟩
  · rw [hmarks.split, hafter, hmarks'.split, hwritten]
    simp
  · rw [hmarks.span_eq, hmarks'.span_eq, hbefore, hsbefore, hwritten]
    simp only [Span.merge, Text.byteLength_append]
    rw [if_pos (by omega), if_pos (by omega)]
    simp only [Nat.add_assoc]

/-- What a scan fails with is shown at its place. -/
theorem Fails.exists_marks {e : LexicalError} (h : p.Fails source e) (hp : p.In source) :
    ∃ slice after, e.span.Marks p slice after ∧
      (SyntaxCause.lexical e.cause).Shows p.dialect slice after := by
  cases h with
  | unterminated hbody =>
    refine ⟨_, [], ⟨(List.append_nil _).symm, ?_⟩, _, rfl, hbody, rfl⟩
    rw [← Text.byteLength_toList, ← (show _ ++ _ = source.toList from hp)]
  | unexpected _ _ =>
    exact ⟨[_], _, ⟨rfl, by rw [Text.byteLength_append]; rfl⟩, rfl⟩

end Position

/-! ## The errors of a source -/

namespace SyntaxError

variable {source : String} {p q : Position} {ts before behind : List Token} {t : Token}
variable {e : SyntaxError}

/-- The token that an error names leads to its place. -/
theorem At.exists_marks (h : e.At before t) (htraverses : p.Traverses ts q) (hp : p.In source)
    (hend : q.after = [])
    (htokens : ts ++ [Token.endOfInput source.utf8ByteSize] = before ++ t :: behind) :
    ∃ r slice after, p.Reaches r ∧ e.span.Marks r slice after ∧
      e.cause.Shows r.dialect slice after := by
  have ht : t ∈ ts ++ [Token.endOfInput source.utf8ByteSize] := by simp [htokens]
  obtain ⟨r, slice, after, hr, hmarks, hshows⟩ := htraverses.exists_marks hp hend ht
  cases h with
  | unexpected _ => exact ⟨r, slice, after, hr, hmarks, hshows⟩
  | noExpression _ => exact ⟨r, slice, after, hr, hmarks, hshows⟩
  | noParameter _ => exact ⟨r, slice, after, hr, hmarks, hshows⟩
  | invalidNumber hnumber _ =>
    rw [hnumber] at hshows
    exact ⟨r, slice, after, hr, hmarks, hshows⟩
  | @missingInitializer before k name _ hk hname _ =>
    have hts : ts = before ++ k :: name :: (t :: behind).dropLast := by
      have hlast := congrArg List.dropLast htokens
      simpa using hlast
    rw [hts] at htraverses
    exact htraverses.exists_declaration hk hname

end SyntaxError

/-- The error of a source within the limit points at what it names. -/
theorem Program.ofSource_error {source : String} {d : Dialect} {e : SyntaxError}
    (hsize : source.utf8ByteSize ≤ Span.limit) (h : ofSource d source = .error e) :
    e.span.start ≤ e.span.stop ∧ e.span.stop ≤ source.utf8ByteSize ∧
      String.Pos.Raw.IsValid source ⟨e.span.start⟩ ∧ String.Pos.Raw.IsValid source ⟨e.span.stop⟩ ∧
      Report.clampTo source.utf8ByteSize e.span = e.span ∧
      ∃ p slice after, (Position.start d source).Reaches p ∧
        source.toList = p.before ++ slice ++ after ∧
        e.span = ⟨byteLength p.before, byteLength (p.before ++ slice)⟩ ∧
        e.cause.Shows p.dialect slice after := by
  have hplace : ∃ p slice after, (Position.start d source).Reaches p ∧
      e.span.Marks p slice after ∧ e.cause.Shows p.dialect slice after := by
    obtain ⟨herror, hok⟩ := tokenize_describes hsize d
    rw [ofSource] at h
    -- The error is of the scan, or about one of its tokens: the scan comes to its place either way.
    cases hscan : tokenize d source with
    | error error =>
      rw [hscan] at h
      cases h
      obtain ⟨p, hp, hfails⟩ := herror _ hscan
      obtain ⟨slice, after, hplace⟩ := hfails.exists_marks (hp.in (Position.start_in d source))
      exact ⟨p, slice, after, hp, hplace⟩
    | ok tokens =>
      rw [hscan] at h
      obtain ⟨p, ts, q, hrestarts, htraverses, hend, rfl⟩ := hok _ hscan
      obtain ⟨before, t, behind, hmarked, -, hat, -, -⟩ := exists_before h
      have hp : p.In source := Position.Reaches.in hrestarts.reaches (Position.start_in d source)
      have hmarker : Token.marked (ts ++ [Token.endOfInput source.utf8ByteSize]) =
          ts ++ [Token.endOfInput source.utf8ByteSize] := by
        simp [Token.marked, Token.endOfInput]
      obtain ⟨r, slice, after, hr, hplace⟩ :=
        hat.exists_marks htraverses hp hend (hmarker.symm.trans hmarked)
      exact ⟨r, slice, after, hrestarts.reaches.trans hr, hplace⟩
  obtain ⟨p, slice, after, hp, hmarks, hshows⟩ := hplace
  have hin : p.In source := Position.Reaches.in hp (Position.start_in d source)
  exact ⟨hmarks.start_le_stop, hmarks.stop_le hin, hmarks.isValid_start hin,
    hmarks.isValid_stop hin, Report.clampTo_eq_self hmarks.start_le_stop (hmarks.stop_le hin),
    p, slice, after, hp, hmarks.source_eq hin, hmarks.span_eq, hshows⟩

/-- Behind a switch word, the place of a constant without a value is still its declaration. -/
theorem Program.ofSource_error_prose :
    ∃ p slice after, (Position.start .standard "\"é\" prose FIX  b + c").Reaches p ∧
      byteLength p.before = 11 ∧ byteLength (p.before ++ slice) = 17 ∧
      (SyntaxCause.missingInitializer "b").Shows p.dialect slice after := by
  have hscan : tokenize .standard "\"é\" prose FIX  b + c" =
      .ok [⟨.constKeyword, "FIX", ⟨11, 14⟩⟩, ⟨.identifier, "b", ⟨16, 17⟩⟩, ⟨.plus, "+", ⟨18, 19⟩⟩,
        ⟨.identifier, "c", ⟨20, 21⟩⟩, ⟨.endOfInput, "", ⟨21, 21⟩⟩] := by
    decide +kernel
  have herror : ofSource .standard "\"é\" prose FIX  b + c" =
      .error ⟨.missingInitializer "b", ⟨11, 17⟩⟩ := by
    rw [ofSource, hscan]
    rfl
  obtain ⟨-, -, -, -, -, p, slice, after, hp, -, hspan, hshows⟩ :=
    ofSource_error (by decide) herror
  obtain ⟨hstart, hstop⟩ := Span.mk.inj hspan
  exact ⟨p, slice, after, hp, hstart.symm, hstop.symm, hshows⟩

end DialectScript
