import DialectScript.Proofs.Spelling

/-!
# Which programs can be spelled

A syntax tree can say more than a source: a constant without a value, a property behind a dot
that is no name, a number that no numeral denotes. Nothing else stands in the way.

**Theorem (`Program.writable_iff`).** A program has a fully punctuated spelling exactly if it is
`Writable`.

For one direction every subexpression is put into parentheses, so that no precedence matters.
-/

namespace DialectScript

/-- Every property behind a dot is a name, and every number has a numeral. -/
inductive Expr.Writable : Expr → Prop
  | identifier (name : String) : Writable (.identifier name)
  | number {x : Float} {text : String} : Numeral.value? text = some x → Writable (.number x)
  | string (text : String) : Writable (.string text)
  | binary {operator : Operator} {left right : Expr} :
      Writable left → Writable right → Writable (.binary operator left right)
  | assign {target value : Expr} :
      Writable target → Writable value → Writable (.assign target value)
  | object {properties : List (Property Expr)} :
      (∀ key value, .pair key value ∈ properties → Writable value) → Writable (.object properties)
  | array {elements : List Expr} : (∀ e ∈ elements, Writable e) → Writable (.array elements)
  | dot {object : Expr} (name : String) :
      Writable object → Writable (.member object (.identifier name) .dot)
  | bracket {object index : Expr} :
      Writable object → Writable index → Writable (.member object index .bracket)
  | call {callee : Expr} {arguments : List Expr} :
      Writable callee → (∀ e ∈ arguments, Writable e) → Writable (.call callee arguments)

/-- Every constant has a value, and every expression can be written. -/
inductive Stmt.Writable : Stmt → Prop
  | letAlone (name : String) : Writable (.declare .mutable name none)
  | declare (mutability : Mutability) (name : String) {init : Expr} :
      init.Writable → Writable (.declare mutability name (some init))
  | function (name : String) (params : List String) {body : List Stmt} :
      (∀ s ∈ body, Writable s) → Writable (.function name params body)
  | branch {condition : Expr} {thenBody : List Stmt} :
      condition.Writable → (∀ s ∈ thenBody, Writable s) →
      Writable (.branch condition thenBody none)
  | branchElse {condition : Expr} {thenBody elseBody : List Stmt} :
      condition.Writable → (∀ s ∈ thenBody, Writable s) → (∀ s ∈ elseBody, Writable s) →
      Writable (.branch condition thenBody (some elseBody))
  | loop {condition : Expr} {body : List Stmt} :
      condition.Writable → (∀ s ∈ body, Writable s) → Writable (.loop condition body)
  | importPath (path : String) : Writable (.importPath path)
  | expression {e : Expr} : e.Writable → Writable (.expression e)

/-- Every statement can be written. -/
def Program.Writable (program : Program) : Prop := ∀ s ∈ program, s.Writable

/-- The numbers of a writable expression are finite. -/
theorem Numeral.isFinite_of_value? {text : String} {x : Float} (h : Numeral.value? text = some x) :
    x.isFinite := by
  unfold Numeral.value? at h
  split at h
  · cases h
  · split at h
    · next hfinite =>
      cases h
      exact hfinite
    · cases h

/-! ## What is spelled can be written -/

/-- Every expression of the phrase can be written. -/
def Phrase.Writable : Phrase → Prop
  | .expression _ e => e.Writable
  | .entry (.shorthand _) => True
  | .entry (.pair _ value) => value.Writable

theorem Phrase.Spells.writable {p : Phrase} {ts : List Token} (h : p.Spells ts) : p.Writable := by
  induction h with
  | looser _ ih => exact ih
  | identifier _ => exact .identifier _
  | number _ hx => exact .number hx
  | string _ => exact .string _
  | parens _ _ _ ih => exact ih
  | array _ _ _ _ ih =>
    refine .array fun e he => ?_
    obtain ⟨i, hi, rfl⟩ := List.mem_map.1 he
    exact ih i hi
  | dot _ _ _ ih => exact .dot _ ih
  | bracket _ _ _ _ ih ih' => exact .bracket ih ih'
  | call _ _ _ _ _ ih ih' =>
    refine .call ih fun e he => ?_
    obtain ⟨i, hi, rfl⟩ := List.mem_map.1 he
    exact ih' i hi
  | binary _ _ _ ih ih' => exact .binary ih ih'
  | object _ _ _ _ ih =>
    refine .object fun key value hp => ?_
    obtain ⟨i, hi, hpair⟩ := List.mem_map.1 hp
    have hvalue := ih i hi
    rwa [hpair] at hvalue
  | assign _ _ _ ih ih' => exact .assign ih ih'
  | shorthand _ => trivial
  | pair _ _ _ ih => exact ih

/-- Every statement of the clause can be written. -/
def Clause.Writable : Clause → Prop
  | .statement _ s | .bare _ s => s.Writable
  | .block ss | .body _ ss | .sequence ss => ∀ s ∈ ss, s.Writable

theorem Clause.Spells.writable {style : Style} {c : Clause} {ts : List Token}
    (h : c.Spells style ts) : c.Writable := by
  induction h with
  | unterminated _ _ ih | terminated _ _ _ ih | braced _ ih | block _ _ _ ih => exact ih
  | letAlone _ _ => exact .letAlone _
  | declare _ _ _ he => exact .declare _ _ he.writable
  | function _ _ _ _ _ _ _ ih => exact .function _ _ ih
  | branch _ he _ ih => exact .branch he.writable ih
  | branchElse _ he _ _ _ _ ih ih' => exact .branchElse he.writable ih ih'
  | loop _ he _ ih => exact .loop he.writable ih
  | importPath _ _ => exact .importPath _
  | expression he => exact .expression he.writable
  | single _ _ _ ih => exact fun s hs => List.mem_singleton.1 hs ▸ ih
  | empty => exact fun s hs => absurd hs List.not_mem_nil
  | next _ _ ih ih' => exact List.forall_mem_cons.2 ⟨ih, ih'⟩

/-! ## What can be written is spelled -/

/-- A token that stands nowhere in particular. -/
def Token.floating (kind : Kind) (text : String) : Token := ⟨kind, text, .point 0⟩

theorem Token.floating_kind (kind : Kind) (text : String) : (floating kind text).kind = kind := rfl

open Token

theorem exists_separated (items : List (List Token)) : ∃ ts, Separated items ts := by
  induction items with
  | nil => exact ⟨[], .none⟩
  | cons item items ih =>
    obtain ⟨ts, hts⟩ := ih
    exact ⟨_, .comma item (floating_kind .comma ",") hts⟩

theorem Listed.exists_of_forall {α : Type} {P : α → List Token → Prop} {as : List α}
    (h : ∀ a ∈ as, ∃ ts, P a ts) : ∃ ts, Listed P as ts := by
  induction as with
  | nil => exact ⟨[], .nil⟩
  | cons a as ih =>
    obtain ⟨ts, ha⟩ := h a (by simp)
    obtain ⟨us, has⟩ := ih fun b hb => h b (by simp [hb])
    exact ⟨_, .cons ha (floating_kind .comma ",") has⟩

/-- A phrase of a level is one of every looser level. -/
theorem Phrase.Spells.loosen {e : Expr} {ts : List Token} {tier tier' : Tier}
    (hle : tier'.rank ≤ tier.rank) (h : (Phrase.expression tier e).Spells ts) :
    (Phrase.expression tier' e).Spells ts := by
  rcases Tier.eq_or_rank_tighter_le hle with rfl | ⟨hlt, hle'⟩
  · exact h
  · exact .looser (loosen hle' h)
termination_by tier.rank - tier'.rank

/-- In parentheses, an expression is one of every level. -/
theorem Phrase.Spells.in_parens {e : Expr} {ts : List Token} {tier : Tier}
    (h : (Phrase.expression tier e).Spells ts) (tier' : Tier) :
    ∃ us, (Phrase.expression tier' e).Spells us := by
  have hloose : (Phrase.expression .assignment e).Spells ts := h.loosen (by cases tier <;> decide)
  have hprimary := hloose.parens (floating_kind .leftParen "(") (floating_kind .rightParen ")")
  exact ⟨_, hprimary.loosen (by cases tier' <;> decide)⟩

/-- A writable expression has a spelling at every level. -/
theorem Expr.Writable.exists_spells {e : Expr} (h : e.Writable) (tier : Tier) :
    ∃ ts, (Phrase.expression tier e).Spells ts := by
  -- Parentheses make a phrase of any tier, so it is enough to spell each one in its own.
  induction h generalizing tier with
  | identifier name =>
    exact (Phrase.Spells.identifier (floating_kind .identifier name)).in_parens tier
  | @number x text hx =>
    exact (Phrase.Spells.number (floating_kind .number text) hx).in_parens tier
  | string text => exact (Phrase.Spells.string (floating_kind .string text)).in_parens tier
  | @binary operator _ _ _ _ ihl ihr =>
    obtain ⟨ts, hl⟩ := ihl operator.tier
    obtain ⟨us, hr⟩ := ihr operator.tier.tighter
    exact (hl.binary (floating_kind operator.kind operator.symbol) hr).in_parens tier
  | assign _ _ iht ihv =>
    obtain ⟨ts, ht⟩ := iht .object
    obtain ⟨us, hv⟩ := ihv .assignment
    exact (ht.assign (floating_kind .equals "=") hv).in_parens tier
  | @object properties _ ih =>
    have hentries : ∀ p ∈ properties, ∃ ts, (Phrase.entry p).Spells ts := by
      intro p hp
      match p with
      | .shorthand key => exact ⟨_, .shorthand (floating_kind .identifier key)⟩
      | .pair key value =>
        obtain ⟨ts, hv⟩ := ih key value hp .assignment
        exact ⟨_, .pair (floating_kind .identifier key) (floating_kind .colon ":") hv⟩
    obtain ⟨ts, items, rfl, hitems, hsep⟩ := Listed.exists_of_forall hentries
    exact (Phrase.Spells.object (floating_kind .leftBrace "\x7b") hitems hsep
      (floating_kind .rightBrace "\x7d")).in_parens tier
  | array _ ih =>
    obtain ⟨ts, items, rfl, hitems, hsep⟩ := Listed.exists_of_forall fun e he => ih e he .assignment
    exact (Phrase.Spells.array (floating_kind .leftBracket "[") hitems hsep
      (floating_kind .rightBracket "]")).in_parens tier
  | dot name _ ih =>
    obtain ⟨ts, ho⟩ := ih .suffixed
    exact (ho.dot (floating_kind .dot ".") (floating_kind .identifier name)).in_parens tier
  | bracket _ _ iho ihi =>
    obtain ⟨ts, ho⟩ := iho .suffixed
    obtain ⟨us, hi⟩ := ihi .assignment
    exact (ho.bracket (floating_kind .leftBracket "[") hi
      (floating_kind .rightBracket "]")).in_parens tier
  | call _ _ ihc iha =>
    obtain ⟨ts, hc⟩ := ihc .suffixed
    obtain ⟨us, items, rfl, hitems, hsep⟩ :=
      Listed.exists_of_forall fun e he => iha e he .assignment
    exact (hc.call (floating_kind .leftParen "(") hitems hsep
      (floating_kind .rightParen ")")).in_parens tier

/-- The statement has a spelling behind which a semicolon is its own. -/
def Stmt.HasFinished (style : Style) (s : Stmt) : Prop :=
  ∃ edge ts, (Clause.bare edge s).Spells style ts ∧ edge.unfinished = false

/-- Statements that can be spelled one by one can be spelled in sequence. -/
theorem exists_spells_sequence {style : Style} {ss : List Stmt}
    (h : ∀ s ∈ ss, s.HasFinished style) :
    ∃ ts, (Clause.sequence ss).Spells style ts := by
  induction ss with
  | nil => exact ⟨[], .empty⟩
  | cons s ss ih =>
    obtain ⟨edge, ts, hs, hfinished⟩ := h s (by simp)
    obtain ⟨us, hss⟩ := ih fun s' hs' => h s' (by simp [hs'])
    exact ⟨_, .next (.terminated hs hfinished (floating_kind .semicolon ";")) hss⟩

theorem exists_spells_block {style : Style} {ss : List Stmt}
    (h : ∀ s ∈ ss, s.HasFinished style) :
    ∃ ts, (Clause.block ss).Spells style ts := by
  obtain ⟨ts, hss⟩ := exists_spells_sequence h
  exact ⟨_, .block (floating_kind .leftBrace "\x7b") hss (floating_kind .rightBrace "\x7d")⟩

/-- A writable statement has a spelling with every semicolon and every brace. -/
theorem Stmt.Writable.exists_spells {s : Stmt} (h : s.Writable) (style : Style) :
    s.HasFinished style := by
  -- Bodies are spelled in braces, so no statement here is dangling or unfinished.
  induction h with
  | letAlone name =>
    exact ⟨_, _, .letAlone (floating_kind .letKeyword "let") (floating_kind .identifier name),
      rfl⟩
  | declare mutability name he =>
    obtain ⟨ts, he⟩ := he.exists_spells .assignment
    exact ⟨_, _, .declare (floating_kind mutability.keyword "") (floating_kind .identifier name)
      (floating_kind .equals "=") he, rfl⟩
  | function name params _ ih =>
    have hparams : ∀ p ∈ params.map (Token.floating .identifier), p.kind = .identifier := by
      simp [floating_kind]
    have htexts : (params.map (Token.floating .identifier)).map (·.text) = params := by
      rw [List.map_map]
      exact List.map_id params
    obtain ⟨ts, hsep⟩ := exists_separated ((params.map (Token.floating .identifier)).map ([·]))
    obtain ⟨us, hbody⟩ := exists_spells_block ih
    have h := Clause.Spells.function (floating_kind .functionKeyword "fn")
      (floating_kind .identifier name) (floating_kind .leftParen "(") hparams hsep
      (floating_kind .rightParen ")") hbody
    rw [htexts] at h
    exact ⟨_, _, h, rfl⟩
  | branch hc _ ih =>
    obtain ⟨ts, hc⟩ := hc.exists_spells .assignment
    obtain ⟨us, hthen⟩ := exists_spells_block ih
    exact ⟨_, _, .branch (floating_kind .ifKeyword "if") hc (.braced hthen), rfl⟩
  | branchElse hc _ _ ih ih' =>
    obtain ⟨ts, hc⟩ := hc.exists_spells .assignment
    obtain ⟨us, hthen⟩ := exists_spells_block ih
    obtain ⟨vs, helse⟩ := exists_spells_block ih'
    exact ⟨_, _, .branchElse (floating_kind .ifKeyword "if") hc (.braced hthen) rfl
      (floating_kind .elseKeyword "else") (.braced helse), rfl⟩
  | loop hc _ ih =>
    obtain ⟨ts, hc⟩ := hc.exists_spells .assignment
    obtain ⟨us, hbody⟩ := exists_spells_block ih
    exact ⟨_, _, .loop (floating_kind .whileKeyword "while") hc (.braced hbody), rfl⟩
  | importPath path =>
    exact ⟨_, _, .importPath (floating_kind .importKeyword "import") (floating_kind .string path),
      rfl⟩
  | expression he =>
    obtain ⟨ts, he⟩ := he.exists_spells .assignment
    exact ⟨_, _, .expression he, rfl⟩

/-- A program has a fully punctuated spelling exactly if it is writable. -/
theorem Program.writable_iff (program : Program) :
    program.Writable ↔ ∃ ts, program.Spells .full ts := by
  constructor
  · intro h
    exact exists_spells_sequence fun s hs => (h s hs).exists_spells .full
  · rintro ⟨ts, hts⟩
    exact Clause.Spells.writable hts

end DialectScript
