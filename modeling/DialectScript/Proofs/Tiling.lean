import DialectScript.Proofs.Scanning

/-!
# Tokens tile the source

**Theorem (`tokenize_tiles`).** The tokens of a source end with the end marker. The others tile
what follows the last switch word (`Tiling`): each stands in the source at its span as the longest
lexeme there, they follow one another without overlapping, and what they leave uncovered is white
space.

The tiling is built from the end of the source backwards, along the positions that the scan
passes: white space before a tiled text, and a token before it, give a tiled text again
(`Tiling.blank`, `Tiling.token`). That nothing but white space lies between two tokens comes out of
the offsets: a character that begins inside a passed lexeme is one of its characters
(`Text.mem_of_between`).
-/

namespace DialectScript

open Lexeme

/-! ## Offsets -/

namespace Text

variable {left mid right before after : List Char} {c : Char}

theorem prefix_of_byteLength_le (hsplit : left ++ right = before ++ c :: after)
    (hle : byteLength left ≤ byteLength before) : left <+: before := by
  obtain ⟨rest, rfl, -⟩ | ⟨rest, rfl, hrest⟩ := List.append_eq_append_iff.1 hsplit
  · exact List.prefix_append _ _
  · cases rest with
    | nil => simp
    | cons d rest =>
      have hpos := d.utf8Size_pos
      simp only [byteLength_append, byteLength_cons] at hle
      omega

/-- The character that begins between two offsets lies in the text between them. -/
theorem mem_of_between (hsplit : left ++ mid ++ right = before ++ c :: after)
    (hle : byteLength left ≤ byteLength before)
    (hlt : byteLength before < byteLength (left ++ mid)) : c ∈ mid := by
  rw [List.append_assoc] at hsplit
  obtain ⟨skipped, rfl⟩ := prefix_of_byteLength_le hsplit hle
  rw [List.append_assoc] at hsplit
  obtain ⟨rest, rfl, -⟩ | ⟨rest, rfl, hrest⟩ :=
    List.append_eq_append_iff.1 (List.append_cancel_left hsplit)
  · simp only [byteLength_append] at hlt
    omega
  · cases rest with
    | nil => simp at hlt
    | cons d rest =>
      obtain rfl : c = d := (List.cons.inj hrest).1
      simp

end Text

/-! ## Tokens as they are written -/

/-- The source text of a token: a string has its quotes again. -/
def Token.written (t : Token) : List Char :=
  if t.kind = .string then '"' :: (t.text.toList ++ ['"']) else t.text.toList

namespace Dialect

variable {d : Dialect} {shape : Shape} {chars : List Char} {kind : Kind} {span : Span}

theorem keywords_kind : ∀ entry ∈ d.keywords, entry.2 ≠ .endOfInput ∧ entry.2 ≠ .string := by
  cases d <;> decide

theorem classify_eq_keyword (h : d.classify chars = .keyword kind) :
    ∃ spelling, (spelling, kind) ∈ d.keywords ∧ Word.spells chars spelling = true := by
  unfold classify at h
  split at h
  · cases h
  · split at h
    · next spelling _ hfind =>
      cases h
      have hspells := List.find?_some hfind
      exact ⟨spelling, List.mem_of_find?_eq_some hfind, hspells⟩
    · cases h

/-- No lexeme makes an end marker, and only a string makes a string token. -/
theorem kind?_kind (hallowed : shape.Matches chars) (h : d.kind? shape chars = some kind) :
    kind ≠ .endOfInput ∧ (kind = .string ↔ shape = .string) := by
  cases hallowed with
  | blank _ _ | openString _ => cases h
  | number _ _ | string _ =>
    cases h
    decide
  | symbol hmem =>
    have hall : ∀ entry ∈ Kind.symbols, entry.1 ≠ .endOfInput ∧ entry.1 ≠ .string := by decide
    obtain ⟨hend, hstring⟩ := hall _ hmem
    cases h
    exact ⟨hend, by simp [hstring]⟩
  | word _ _ =>
    simp only [kind?] at h
    split at h
    · next hkeyword =>
      cases h
      obtain ⟨spelling, hmem, -⟩ := classify_eq_keyword hkeyword
      obtain ⟨hend, hstring⟩ := keywords_kind _ hmem
      exact ⟨hend, by simp [hstring]⟩
    · cases h
      decide
    · cases h

/-- A token is written as the lexeme that makes it. -/
theorem written_eq (hallowed : shape.Matches chars) (h : d.kind? shape chars = some kind) :
    Token.written ⟨kind, shape.text chars, span⟩ = chars := by
  obtain ⟨-, hstring⟩ := kind?_kind hallowed h
  by_cases hkind : kind = .string
  · obtain rfl := hstring.1 hkind
    cases hallowed with
    | string _ => simp [Token.written, hkind, Shape.text]
  · have hshape : shape ≠ .string := fun heq => hkind (hstring.2 heq)
    have htext : shape.text chars = .ofList chars := by
      cases shape <;> first | rfl | exact absurd rfl hshape
    simp [Token.written, hkind, htext]

/-- No quote is left in the text of a string token. -/
theorem quote_not_mem_text (hallowed : shape.Matches chars)
    (h : d.kind? shape chars = some .string) : '"' ∉ (shape.text chars).toList := by
  obtain rfl := (kind?_kind hallowed h).2.1 rfl
  cases hallowed with
  | string hbody => simpa [Shape.text] using hbody

end Dialect

open Text (byteLength)

/-- The token stands in the source behind the position: at its span it is written as the longest
lexeme there, and of the kind that the dialect gives that lexeme. -/
structure Token.Stands (t : Token) (source : String) (p : Position) : Prop where
  slice : ∃ before after, source.toList = before ++ t.written ++ after ∧ p.before <+: before ∧
    t.span = ⟨byteLength before, byteLength (before ++ t.written)⟩ ∧
    ∃ shape, Longest (t.written ++ after) shape t.written ∧
      p.dialect.kind? shape t.written = some t.kind
  nonempty : t.span.start < t.span.stop
  not_end : t.kind ≠ .endOfInput
  quoteless : t.kind = .string → '"' ∉ t.text.toList

/-- The tokens tile the source behind the position: they stand there in this order, without
overlapping, and a character outside of them is white space. -/
structure Tiling (source : String) (p : Position) (ts : List Token) : Prop where
  stands : ∀ t ∈ ts, t.Stands source p
  ordered : ts.Pairwise fun t u => t.span.stop ≤ u.span.start
  gaps : ∀ before c after, source.toList = before ++ c :: after →
    byteLength p.before ≤ byteLength before →
    (∀ t ∈ ts, byteLength before < t.span.start ∨ t.span.stop ≤ byteLength before) →
    isBlank c = true

/-! ## Passing builds a tiling -/

section Passing

variable {source : String} {p q : Position} {t : Token} {ts us : List Token}
variable {shape : Shape} {chars : List Char} {kind : Kind}

theorem Token.Stands.start_le (h : t.Stands source p) : byteLength p.before ≤ t.span.start := by
  obtain ⟨before, after, -, ⟨rest, rfl⟩, hspan, -⟩ := h.slice
  rw [hspan, Text.byteLength_append]
  exact Nat.le_add_right _ _

/-- A token that stands behind a position stands behind an earlier one. -/
theorem Token.Stands.mono (h : t.Stands source q) (hbefore : p.before <+: q.before)
    (hdialect : q.dialect = p.dialect) : t.Stands source p where
  slice := by
    obtain ⟨before, after, hsource, hq, hspan, hlongest⟩ := h.slice
    exact ⟨before, after, hsource, hbefore.trans hq, hspan, hdialect ▸ hlongest⟩
  nonempty := h.nonempty
  not_end := h.not_end
  quoteless := h.quoteless

/-- The token that is passed stands behind the position. -/
theorem Position.Cuts.stands (hp : p.In source) (hcuts : p.Cuts shape chars q)
    (hkind : p.dialect.kind? shape chars = some kind) :
    Token.Stands ⟨kind, shape.text chars, ⟨byteLength p.before, byteLength q.before⟩⟩ source p := by
  have hallowed := hcuts.longest.allowed
  refine ⟨⟨p.before, q.after, ?_⟩, ?_, (Dialect.kind?_kind hallowed hkind).1, ?_⟩
  · rw [Dialect.written_eq hallowed hkind, List.append_assoc, ← hcuts.after, ← hcuts.before]
    exact ⟨hp.symm, List.prefix_rfl, rfl, shape, hcuts.longest, hkind⟩
  · obtain ⟨c, cs, rfl⟩ := List.exists_cons_of_ne_nil hallowed.ne_nil
    have hpos := c.utf8Size_pos
    simp only [hcuts.before, Text.byteLength_append, Text.byteLength_cons]
    omega
  · rintro rfl
    exact Dialect.quote_not_mem_text hallowed hkind

theorem Position.Cuts.split (hp : p.In source) (hcuts : p.Cuts shape chars q) :
    p.before ++ chars ++ q.after = source.toList := by
  rw [List.append_assoc, ← hcuts.after]
  exact hp

theorem Tiling.nil (hp : p.In source) (hend : p.after = []) : Tiling source p [] where
  stands := by simp
  ordered := .nil
  gaps before c after hsource hle _ := by
    have hlength := congrArg byteLength (hp.trans hsource)
    have hpos := c.utf8Size_pos
    simp only [hend, List.append_nil, Text.byteLength_append, Text.byteLength_cons] at hlength
    omega

/-- White space before a tiled text. -/
theorem Tiling.blank (h : Tiling source q us) (hp : p.In source) (hcuts : p.Cuts .blank chars q)
    (hdialect : q.dialect = p.dialect) : Tiling source p us where
  stands t ht := (h.stands t ht).mono ⟨chars, hcuts.before.symm⟩ hdialect
  ordered := h.ordered
  gaps before c after hsource hle houtside := by
    by_cases hq : byteLength q.before ≤ byteLength before
    · exact h.gaps before c after hsource hq houtside
    · rw [hcuts.before] at hq
      have hmem := Text.mem_of_between ((hcuts.split hp).trans hsource) hle (by omega)
      cases hcuts.longest.allowed with
      | blank _ hall => exact hall c hmem

/-- A token before a tiled text. -/
theorem Tiling.token (h : Tiling source q us) (hp : p.In source) (hcuts : p.Cuts shape chars q)
    (hdialect : q.dialect = p.dialect) (hkind : p.dialect.kind? shape chars = some kind) :
    Tiling source p
      (⟨kind, shape.text chars, ⟨byteLength p.before, byteLength q.before⟩⟩ :: us) where
  stands := List.forall_mem_cons.2 ⟨hcuts.stands hp hkind, fun t ht =>
    (h.stands t ht).mono ⟨chars, hcuts.before.symm⟩ hdialect⟩
  ordered := .cons (fun t ht => (h.stands t ht).start_le) h.ordered
  gaps before c after hsource hle houtside := by
    obtain ⟨htoken, hrest⟩ := List.forall_mem_cons.1 houtside
    have hq : byteLength q.before ≤ byteLength before := htoken.resolve_left (Nat.not_lt.2 hle)
    exact h.gaps before c after hsource hq hrest

/-- What is passed up to the end of the source tiles it. -/
theorem Position.Traverses.tiling (h : p.Traverses ts q) (hp : p.In source) (hend : q.after = []) :
    Tiling source p ts := by
  induction h with
  | refl p => exact .nil hp hend
  | step hpasses _ ih =>
    cases hpasses with
    | blank hcuts hdialect => exact (ih (hcuts.in hp) hend).blank hp hcuts hdialect
    | token hcuts hdialect hkind => exact (ih (hcuts.in hp) hend).token hp hcuts hdialect hkind

/-- On the way to the end of the source there is no switch word. -/
theorem Position.Traverses.not_switches {r s : Position} (h : p.Traverses ts q)
    (hend : q.after = []) (hr : p.Reaches r) : ¬ r.Switches s := by
  induction h with
  | refl p =>
    intro hswitches
    obtain rfl | ⟨_, hnext, -⟩ := hr.cases_head
    · exact not_next_of_end hend (.inr hswitches)
    · exact not_next_of_end hend hnext
  | step hpasses _ ih =>
    obtain rfl | ⟨_, hnext, hreaches⟩ := hr.cases_head
    · exact hpasses.not_switches
    · obtain rfl := next_rightUnique hnext (.inl ⟨_, hpasses⟩)
      exact ih hend hreaches

end Passing

/-! ## The tokens of a source -/

/-- The tokens of a source within the limit end with the end marker, and the others tile what
follows the last switch word. -/
theorem tokenize_tiles {source : String} {d : Dialect} {tokens : List Token}
    (hsize : source.utf8ByteSize ≤ Span.limit) (h : tokenize d source = .ok tokens) :
    ∃ p ts, (Position.start d source).Restarts p ∧ p.In source ∧
      (∀ q r, p.Reaches q → ¬ q.Switches r) ∧
      tokens = ts ++ [Token.endOfInput source.utf8ByteSize] ∧ Tiling source p ts := by
  obtain ⟨p, ts, q, hrestarts, htraverses, hend, htokens⟩ := (tokenize_describes hsize d).2 _ h
  have hp : p.In source := Position.Reaches.in hrestarts.reaches (Position.start_in d source)
  exact ⟨p, ts, hrestarts, hp, fun r s hr => htraverses.not_switches hend hr, htokens,
    htraverses.tiling hp hend⟩

/-- The switch word and what stands before it are no part of the tiling. -/
theorem tokenize_tiles_prose :
    ∃ p, (Position.start .standard "let prose set \"é\"!=1").Restarts p ∧
      Tiling "let prose set \"é\"!=1" p
        [⟨.letKeyword, "set", ⟨10, 13⟩⟩, ⟨.string, "é", ⟨14, 18⟩⟩, ⟨.notEqual, "!=", ⟨18, 20⟩⟩,
          ⟨.number, "1", ⟨20, 21⟩⟩] := by
  have hok : tokenize .standard "let prose set \"é\"!=1" =
      .ok ([⟨.letKeyword, "set", ⟨10, 13⟩⟩, ⟨.string, "é", ⟨14, 18⟩⟩, ⟨.notEqual, "!=", ⟨18, 20⟩⟩,
        ⟨.number, "1", ⟨20, 21⟩⟩] ++ [Token.endOfInput 21]) := by
    decide +kernel
  obtain ⟨p, ts, hrestarts, -, -, htokens, htiling⟩ := tokenize_tiles (by decide) hok
  obtain ⟨rfl, -⟩ := List.append_inj' htokens rfl
  exact ⟨p, hrestarts, htiling⟩

end DialectScript
