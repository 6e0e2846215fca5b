import DialectScript.Proofs.Endings
import DialectScript.Proofs.FirstError

/-!
# Parses with one token of lookahead

`Clause.Spells` says which tokens spell a program, and some tokens spell more than one. The readers
settle which it is by a look at the next token: a statement takes a semicolon if one is there, a
branch takes an `else` if one is there, and an expression goes on while it can.

* `Portion.Parses` — the tokens are read as a portion of a program in front of a token of a given
  kind. Each rule says what the next token must not be, and nothing else is said of what follows.
* `Program.ofTokens_eq_ok_iff` — **a program is read exactly off the tokens that parse as it**.

What is left of the readers in this is the kind of a single token, so a change of the tokens keeps
the program if it keeps the parses of its portions.
-/

namespace DialectScript

open Reader

/-- The kind of the first token, or the given kind if there is none. -/
def Kind.ahead (behind : Kind) : List Token → Kind
  | [] => behind
  | t :: _ => t.kind

/-- What statements are read in: a statement with its semicolon and one without it, a block, a body
of a branch or loop, and a sequence. -/
inductive Portion where
  | statement (s : Stmt)
  | bare (s : Stmt)
  | block (ss : List Stmt)
  | body (ss : List Stmt)
  | sequence (ss : List Stmt)

/-- In front of a token of the kind, the tokens are read as the portion. -/
inductive Portion.Parses : Portion → List Token → Kind → Prop
  /-- A semicolon is never left behind. -/
  | unterminated {s : Stmt} {ts : List Token} {k : Kind} :
      Parses (.bare s) ts k → k ≠ .semicolon → Parses (.statement s) ts k
  | terminated {s : Stmt} {ts : List Token} {t : Token} {k : Kind} :
      Parses (.bare s) ts .semicolon → t.kind = .semicolon → Parses (.statement s) (ts ++ [t]) k
  | letAlone {keyword name : Token} {k : Kind} :
      keyword.kind = .letKeyword → name.kind = .identifier → k ≠ .equals →
      Parses (.bare (.declare .mutable name.text none)) [keyword, name] k
  | declare {mutability : Mutability} {keyword name t : Token} {init : Expr} {ts : List Token}
      {k : Kind} :
      keyword.kind = mutability.keyword → name.kind = .identifier → t.kind = .equals →
      Phrase.Spells (.expression .assignment init) ts → k.Ends ts →
      Parses (.bare (.declare mutability name.text (some init))) (keyword :: name :: t :: ts) k
  | function {keyword name l r : Token} {params : List Token} {body : List Stmt}
      {ts us : List Token} {k : Kind} :
      keyword.kind = .functionKeyword → name.kind = .identifier → l.kind = .leftParen →
      (∀ p ∈ params, p.kind = .identifier) → Separated (params.map ([·])) ts →
      r.kind = .rightParen → Parses (.block body) us k →
      Parses (.bare (.function name.text (params.map (·.text)) body))
        (keyword :: name :: l :: (ts ++ r :: us)) k
  /-- An `else` is never left behind by a branch that could take it. -/
  | branch {keyword : Token} {condition : Expr} {thenBody : List Stmt} {ts us : List Token}
      {k : Kind} :
      keyword.kind = .ifKeyword → Phrase.Spells (.expression .assignment condition) ts →
      (k.ahead us).Ends ts → Parses (.body thenBody) us k → k ≠ .elseKeyword →
      Parses (.bare (.branch condition thenBody none)) (keyword :: (ts ++ us)) k
  | branchElse {keyword t : Token} {condition : Expr} {thenBody elseBody : List Stmt}
      {ts us vs : List Token} {k : Kind} :
      keyword.kind = .ifKeyword → Phrase.Spells (.expression .assignment condition) ts →
      (Kind.elseKeyword.ahead us).Ends ts → Parses (.body thenBody) us .elseKeyword →
      t.kind = .elseKeyword → Parses (.body elseBody) vs k →
      Parses (.bare (.branch condition thenBody (some elseBody)))
        (keyword :: (ts ++ (us ++ t :: vs))) k
  | loop {keyword : Token} {condition : Expr} {body : List Stmt} {ts us : List Token} {k : Kind} :
      keyword.kind = .whileKeyword → Phrase.Spells (.expression .assignment condition) ts →
      (k.ahead us).Ends ts → Parses (.body body) us k →
      Parses (.bare (.loop condition body)) (keyword :: (ts ++ us)) k
  | importPath {keyword path : Token} {k : Kind} :
      keyword.kind = .importKeyword → path.kind = .string →
      Parses (.bare (.importPath path.text)) [keyword, path] k
  | expression {e : Expr} {ts : List Token} {k : Kind} :
      Phrase.Spells (.expression .assignment e) ts → k.Ends ts → Parses (.bare (.expression e)) ts k
  | block {l r : Token} {ss : List Stmt} {ts : List Token} {k : Kind} :
      l.kind = .leftBrace → Parses (.sequence ss) ts .rightBrace → r.kind = .rightBrace →
      Parses (.block ss) (l :: (ts ++ [r])) k
  | braced {ss : List Stmt} {ts : List Token} {k : Kind} :
      Parses (.block ss) ts k → Parses (.body ss) ts k
  | single {s : Stmt} {t : Token} {ts : List Token} {k : Kind} :
      Parses (.statement s) (t :: ts) k → t.kind ≠ .leftBrace → Parses (.body [s]) (t :: ts) k
  | empty {k : Kind} : Grammar.Closes k → Parses (.sequence []) [] k
  | next {s : Stmt} {ss : List Stmt} {ts us : List Token} {k : Kind} :
      Parses (.statement s) ts (k.ahead us) → Parses (.sequence ss) us k →
      Parses (.sequence (s :: ss)) (ts ++ us) k

namespace Portion.Parses

variable {p : Portion} {ts : List Token} {k : Kind}

/-- No portion but a sequence is empty, and it starts as statements do. -/
theorem starts (h : p.Parses ts k) :
    (∃ ss, p = .sequence ss) ∨ ∃ t us, ts = t :: us ∧ t.kind ∈ Stmt.starters := by
  induction h with
  | unterminated _ _ ih | braced _ ih | single _ _ ih =>
    obtain ⟨_, ⟨⟩⟩ | ⟨t, us, h, ht⟩ := ih
    exact .inr ⟨t, us, h, ht⟩
  | terminated _ _ ih =>
    obtain ⟨_, ⟨⟩⟩ | ⟨t, us, rfl, ht⟩ := ih
    exact .inr ⟨t, _, rfl, ht⟩
  | @declare mutability _ _ _ _ _ _ hk =>
    refine .inr ⟨_, _, rfl, ?_⟩
    rw [hk]
    cases mutability <;> decide
  | letAlone hk | function hk | branch hk | branchElse hk | loop hk | importPath hk | block hk =>
    refine .inr ⟨_, _, rfl, ?_⟩
    rw [hk]
    decide
  | expression he _ =>
    obtain ⟨t, us, rfl, ht⟩ := he.starts
    exact .inr ⟨t, us, rfl, List.mem_append_right _ ht⟩
  | empty | next => exact .inl ⟨_, rfl⟩

/-- A sequence is read up to a closing brace or the end. -/
theorem closes {ss : List Stmt} (h : (sequence ss).Parses ts k) : Grammar.Closes k := by
  generalize hp : sequence ss = p at h
  induction h generalizing ss with
  | empty hk => exact hk
  | next _ _ _ ih => exact ih rfl
  | _ => cases hp

end Portion.Parses

theorem kind_next_append (marker : Token) (us rest : List Token) :
    (next marker (us ++ rest)).kind = (next marker rest).kind.ahead us := by
  cases us <;> rfl

/-! ## What is read parses -/

namespace Grammar

variable {marker : Token} {n : Nat}

/-- What the readers of statements take parses as what they return, in front of the next token. -/
structure StatementParses (marker : Token) (n : Nat) : Prop where
  statement : ∀ ts, (statement n marker ts).Takes ts fun s us rest =>
    (Portion.statement s).Parses us (next marker rest).kind
  bareStatement : ∀ ts, (bareStatement n marker ts).Takes ts fun s us rest =>
    (Portion.bare s).Parses us (next marker rest).kind
  body : ∀ ts, (body n marker ts).Takes ts fun ss us rest =>
    (Portion.body ss).Parses us (next marker rest).kind
  block : ∀ ts, (block n marker ts).Takes ts fun ss us rest =>
    (Portion.block ss).Parses us (next marker rest).kind
  statements : ∀ stop, Closes stop → ∀ ts, (statements n stop marker ts).Takes ts fun ss us rest =>
    (Portion.sequence ss).Parses us (next marker rest).kind

/-- An expression is taken up to where it ends. -/
theorem expression_ends (hm : marker.kind = .endOfInput) (n : Nat) (ts : List Token) :
    (Grammar.expression n marker ts).Takes ts fun e us rest =>
      (Phrase.expression .assignment e).Spells us ∧ (next marker rest).kind.Ends us :=
  takes_and ((sound hm n).expression ts) ((halts hm n).expression ts)

namespace StatementParses

theorem statement_succ (hm : marker.kind = .endOfInput) (ih : StatementParses marker n)
    (ts : List Token) : (Grammar.statement (n + 1) marker ts).Takes ts fun s us rest =>
      (Portion.statement s).Parses us (next marker rest).kind := by
  rw [Grammar.statement]
  refine takes_bind (ih.bareStatement ts) fun s us rest hs => ?_
  apply takes_accept hm (by decide)
  · intro ht
    rw [ht] at hs
    exact takes_pure (.terminated hs ht)
  · intro hne
    apply takes_pure
    rw [List.append_nil]
    exact .unterminated hs hne

theorem declare_parses (hm : marker.kind = .endOfInput) (mutability : Mutability)
    {keyword name t : Token} (hk : keyword.kind = mutability.keyword)
    (hname : name.kind = .identifier) (ht : t.kind = .equals) (ts : List Token) :
    ((do
      let init ← Grammar.expression n
      return .declare mutability name.text (some init) : Reader Stmt) marker ts).Takes ts
        fun s us rest =>
          (Portion.bare s).Parses (keyword :: name :: t :: us) (next marker rest).kind := by
  refine takes_bind (expression_ends hm n ts) fun init us rest hinit => ?_
  apply takes_pure
  rw [List.append_nil]
  exact .declare hk hname ht hinit.1 hinit.2

theorem bareStatement_succ (hm : marker.kind = .endOfInput) (ih : StatementParses marker n)
    (ts : List Token) : (Grammar.bareStatement (n + 1) marker ts).Takes ts fun s us rest =>
      (Portion.bare s).Parses us (next marker rest).kind := by
  have he := expression_ends hm n
  rw [Grammar.bareStatement]
  apply takes_peek
  -- What is left to the token behind the statement is said by its last part, in front of which the
  -- other parts were read.
  cases hk : (next marker ts).kind with
  | letKeyword =>
    apply takes_take hm (by rw [hk]; decide)
    apply takes_expect hm (by decide)
    intro hname
    apply takes_accept hm (by decide)
    · intro ht
      exact declare_parses hm .mutable hk hname ht _
    · intro hne
      exact takes_pure (.letAlone hk hname hne)
  | constKeyword =>
    apply takes_take hm (by rw [hk]; decide)
    apply takes_expect hm (by decide)
    intro hname
    apply takes_accept hm (by decide)
    · intro ht
      exact declare_parses hm .constant hk hname ht _
    · intro _
      trivial
  | functionKeyword =>
    apply takes_take hm (by rw [hk]; decide)
    apply takes_name hm
    intro hname
    apply takes_expect hm (by decide)
    intro hl
    refine takes_bind (parameters_takes hm n _) fun names us rest hnames => ?_
    obtain ⟨params, rfl, hparams, hsep⟩ := hnames
    apply takes_expect hm (by decide)
    intro hr
    refine takes_bind (ih.block _) fun statements vs rest' hbody => ?_
    apply takes_pure
    rw [List.append_nil]
    exact .function hk hname hl hparams hsep hr hbody
  | ifKeyword =>
    apply takes_take hm (by rw [hk]; decide)
    refine takes_bind (he _) fun condition us rest hcondition => ?_
    obtain ⟨hcondition, hends⟩ := hcondition
    refine takes_bind (takes_eq (ih.body rest)) fun thenBody vs rest' hthen => ?_
    obtain ⟨rfl, hthen⟩ := hthen
    rw [kind_next_append] at hends
    apply takes_accept hm (by decide)
    · intro ht
      -- The body in between ends in front of the `else`, and has left it to this branch.
      rw [ht] at hthen hends
      refine takes_bind (ih.body _) fun elseBody ws rest'' helse => ?_
      apply takes_pure
      rw [List.append_nil]
      exact .branchElse hk hcondition hends hthen ht helse
    · intro hne
      apply takes_pure
      rw [List.append_nil]
      exact .branch hk hcondition hends hthen hne
  | whileKeyword =>
    apply takes_take hm (by rw [hk]; decide)
    refine takes_bind (he _) fun condition us rest hcondition => ?_
    obtain ⟨hcondition, hends⟩ := hcondition
    refine takes_bind (takes_eq (ih.body rest)) fun statements vs rest' hbody => ?_
    obtain ⟨rfl, hbody⟩ := hbody
    rw [kind_next_append] at hends
    apply takes_pure
    rw [List.append_nil]
    exact .loop hk hcondition hends hbody
  | importKeyword =>
    apply takes_take hm (by rw [hk]; decide)
    apply takes_expect hm (by decide)
    intro hpath
    exact takes_pure (.importPath hk hpath)
  | _ =>
    refine takes_bind (he ts) fun value us rest hvalue => ?_
    apply takes_pure
    rw [List.append_nil]
    exact .expression hvalue.1 hvalue.2

theorem body_succ (ih : StatementParses marker n) (ts : List Token) :
    (Grammar.body (n + 1) marker ts).Takes ts fun ss us rest =>
      (Portion.body ss).Parses us (next marker rest).kind := by
  rw [Grammar.body]
  apply takes_peek
  by_cases hk : (next marker ts).kind = .leftBrace
  · rw [if_pos hk]
    exact takes_mono (ih.block ts) fun ss us rest hss => .braced hss
  · rw [if_neg hk]
    refine takes_bind (takes_eq (ih.statement ts)) fun s us rest hs => ?_
    obtain ⟨rfl, hs⟩ := hs
    apply takes_pure
    rw [List.append_nil]
    obtain ⟨_, ⟨⟩⟩ | ⟨t, us, rfl, -⟩ := hs.starts
    exact .single hs hk

theorem block_succ (hm : marker.kind = .endOfInput) (ih : StatementParses marker n)
    (ts : List Token) : (Grammar.block (n + 1) marker ts).Takes ts fun ss us rest =>
      (Portion.block ss).Parses us (next marker rest).kind := by
  rw [Grammar.block]
  apply takes_expect hm (by decide)
  intro hl
  refine takes_bind (ih.statements .rightBrace (.inl rfl) _) fun ss us rest hss => ?_
  apply takes_expect hm (by decide)
  intro hr
  rw [hr] at hss
  exact takes_pure (.block hl hss hr)

theorem statements_succ (ih : StatementParses marker n) (stop : Kind) (hstop : Closes stop)
    (ts : List Token) : (Grammar.statements (n + 1) stop marker ts).Takes ts fun ss us rest =>
      (Portion.sequence ss).Parses us (next marker rest).kind := by
  rw [Grammar.statements]
  apply takes_peek
  by_cases hk : (next marker ts).kind = stop ∨ (next marker ts).kind = .endOfInput
  · rw [if_pos hk]
    refine takes_pure (.empty ?_)
    rcases hk with hk | hk
    · exact hk ▸ hstop
    · exact .inr hk
  · rw [if_neg hk]
    refine takes_bind (ih.statement ts) fun first us rest hfirst => ?_
    refine takes_bind (takes_eq (ih.statements stop hstop rest)) fun others vs rest' hothers => ?_
    obtain ⟨rfl, hothers⟩ := hothers
    rw [kind_next_append] at hfirst
    apply takes_pure
    rw [List.append_nil]
    exact .next hfirst hothers

end StatementParses

/-- With any bound, what the readers of statements take parses. -/
theorem statementParses (hm : marker.kind = .endOfInput) (n : Nat) : StatementParses marker n := by
  induction n with
  | zero => constructor <;> intros <;> trivial
  | succ n ih =>
    exact
      { statement := ih.statement_succ hm
        bareStatement := ih.bareStatement_succ hm
        body := ih.body_succ
        block := ih.block_succ hm
        statements := ih.statements_succ }

end Grammar

/-! ## What parses is read -/

open Grammar

variable {ts us vs : List Token} {e : Expr} {k : Kind}

/-- In front of a token of the kind, the readers read the portion off its tokens. A sequence is read
up to such a token. -/
def Portion.Reads : Portion → List Token → Kind → Prop
  | .statement s, ts, k => ∀ marker rest, (next marker rest).kind = k →
    ∀ n, (Grammar.statement n marker (ts ++ rest)).Yields s rest
  | .bare s, ts, k => ∀ marker rest, (next marker rest).kind = k →
    ∀ n, (bareStatement n marker (ts ++ rest)).Yields s rest
  | .block ss, ts, k => ∀ marker rest, (next marker rest).kind = k →
    ∀ n, (Grammar.block n marker (ts ++ rest)).Yields ss rest
  | .body ss, ts, k => ∀ marker rest, (next marker rest).kind = k →
    ∀ n, (Grammar.body n marker (ts ++ rest)).Yields ss rest
  | .sequence ss, ts, k => ∀ marker rest, (next marker rest).kind = k →
    ∀ n, (statements n k marker (ts ++ rest)).Yields ss rest

namespace Portion.Reads

variable {s : Stmt} {ss : List Stmt} {keyword name t l r : Token}

theorem unterminated (h : (bare s).Reads ts k) (hne : k ≠ .semicolon) :
    (statement s).Reads ts k := by
  intro marker rest hrest n
  cases n with
  | zero => exact yields_exhausted
  | succ n =>
    rw [Grammar.statement]
    exact yields_bind (h marker rest hrest n) (yields_decline (hrest ▸ hne) yields_pure)

theorem terminated (h : (bare s).Reads ts .semicolon) (ht : t.kind = .semicolon) :
    (statement s).Reads (ts ++ [t]) k := by
  intro marker rest _ n
  cases n with
  | zero => exact yields_exhausted
  | succ n =>
    rw [Grammar.statement, List.append_assoc]
    exact yields_bind (h marker (t :: rest) ht n) (yields_accept ht yields_pure)

theorem letAlone (hk : keyword.kind = .letKeyword) (hname : name.kind = .identifier)
    (hne : k ≠ .equals) :
    (bare (.declare .mutable name.text none)).Reads [keyword, name] k := by
  intro marker rest hrest n
  cases n with
  | zero => exact yields_exhausted
  | succ n =>
    rw [bareStatement]
    apply yields_peek
    simp only [List.cons_append, List.nil_append, Reader.next, hk]
    apply yields_take
    apply yields_expect hname
    exact yields_decline (hrest ▸ hne) yields_pure

theorem declare {mutability : Mutability} (hk : keyword.kind = mutability.keyword)
    (hname : name.kind = .identifier) (ht : t.kind = .equals)
    (hinit : (Phrase.expression .assignment e).Spells ts) (hends : k.Ends ts) :
    (bare (.declare mutability name.text (some e))).Reads (keyword :: name :: t :: ts) k := by
  intro marker rest hrest n
  cases n with
  | zero => exact yields_exhausted
  | succ n =>
    have hread : ((do
        let init ← Grammar.expression n
        return .declare mutability name.text (some init) : Reader Stmt) marker
          (ts ++ rest)).Yields (.declare mutability name.text (some e)) rest :=
      yields_bind (hinit.reads_of_ends _ _ (hrest ▸ hends) n) yields_pure
    rw [bareStatement]
    apply yields_peek
    cases mutability <;>
      simp only [List.cons_append, Reader.next, hk, Mutability.keyword] <;>
      exact yields_take (yields_expect hname (yields_accept ht hread))

theorem function {params : List Token} (hk : keyword.kind = .functionKeyword)
    (hname : name.kind = .identifier) (hl : l.kind = .leftParen)
    (hparams : ∀ p ∈ params, p.kind = .identifier) (hsep : Separated (params.map ([·])) ts)
    (hr : r.kind = .rightParen) (hbody : (block ss).Reads us k) :
    (bare (.function name.text (params.map (·.text)) ss)).Reads
      (keyword :: name :: l :: (ts ++ r :: us)) k := by
  intro marker rest hrest n
  cases n with
  | zero => exact yields_exhausted
  | succ n =>
    have hclose : (Reader.next marker (r :: (us ++ rest))).kind = .rightParen := hr
    rw [bareStatement]
    apply yields_peek
    simp only [List.cons_append, List.append_assoc, Reader.next, hk]
    apply yields_take
    apply yields_name hname
    apply yields_expect hl
    refine yields_bind (parameters_yields hparams hsep hclose n) (yields_expect hr ?_)
    exact yields_bind (hbody marker rest hrest n) yields_pure

/-- A condition is read in front of the body behind it. -/
theorem condition {marker : Token} {rest : List Token}
    (hcondition : (Phrase.expression .assignment e).Spells ts) (hends : (k.ahead us).Ends ts)
    (hrest : (Reader.next marker rest).kind = k) (n : Nat) :
    (Grammar.expression n marker (ts ++ (us ++ rest))).Yields e (us ++ rest) := by
  refine hcondition.reads_of_ends _ _ ?_ n
  rwa [kind_next_append, hrest]

theorem branch (hk : keyword.kind = .ifKeyword)
    (hcondition : (Phrase.expression .assignment e).Spells ts) (hends : (k.ahead us).Ends ts)
    (hthen : (body ss).Reads us k) (hne : k ≠ .elseKeyword) :
    (bare (.branch e ss none)).Reads (keyword :: (ts ++ us)) k := by
  intro marker rest hrest n
  cases n with
  | zero => exact yields_exhausted
  | succ n =>
    rw [bareStatement]
    apply yields_peek
    simp only [List.cons_append, List.append_assoc, Reader.next, hk]
    apply yields_take
    refine yields_bind (condition hcondition hends hrest n) ?_
    refine yields_bind (hthen marker rest hrest n) ?_
    exact yields_decline (hrest ▸ hne) yields_pure

theorem branchElse {ss' : List Stmt} (hk : keyword.kind = .ifKeyword)
    (hcondition : (Phrase.expression .assignment e).Spells ts)
    (hends : (Kind.elseKeyword.ahead us).Ends ts) (hthen : (body ss).Reads us .elseKeyword)
    (ht : t.kind = .elseKeyword) (helse : (body ss').Reads vs k) :
    (bare (.branch e ss (some ss'))).Reads (keyword :: (ts ++ (us ++ t :: vs))) k := by
  intro marker rest hrest n
  cases n with
  | zero => exact yields_exhausted
  | succ n =>
    have htoken : (Reader.next marker (t :: (vs ++ rest))).kind = .elseKeyword := ht
    rw [bareStatement]
    apply yields_peek
    simp only [List.cons_append, List.append_assoc, Reader.next, hk]
    apply yields_take
    refine yields_bind (condition hcondition hends htoken n) ?_
    refine yields_bind (hthen marker _ htoken n) (yields_accept ht ?_)
    exact yields_bind (helse marker rest hrest n) yields_pure

theorem loop (hk : keyword.kind = .whileKeyword)
    (hcondition : (Phrase.expression .assignment e).Spells ts) (hends : (k.ahead us).Ends ts)
    (hbody : (body ss).Reads us k) : (bare (.loop e ss)).Reads (keyword :: (ts ++ us)) k := by
  intro marker rest hrest n
  cases n with
  | zero => exact yields_exhausted
  | succ n =>
    rw [bareStatement]
    apply yields_peek
    simp only [List.cons_append, List.append_assoc, Reader.next, hk]
    apply yields_take
    refine yields_bind (condition hcondition hends hrest n) ?_
    exact yields_bind (hbody marker rest hrest n) yields_pure

theorem importPath (hk : keyword.kind = .importKeyword) (hpath : t.kind = .string) :
    (bare (.importPath t.text)).Reads [keyword, t] k := by
  intro marker rest _ n
  cases n with
  | zero => exact yields_exhausted
  | succ n =>
    rw [bareStatement]
    apply yields_peek
    simp only [List.cons_append, List.nil_append, Reader.next, hk]
    exact yields_take (yields_expect hpath yields_pure)

theorem expression (he : (Phrase.expression .assignment e).Spells ts) (hends : k.Ends ts) :
    (bare (.expression e)).Reads ts k := by
  intro marker rest hrest n
  cases n with
  | zero => exact yields_exhausted
  | succ n =>
    have hread := he.reads_of_ends marker rest (hrest ▸ hends) n
    obtain ⟨t, us, rfl, ht⟩ := he.starts
    rw [bareStatement_eq_expression (by exact ht)]
    exact yields_bind hread yields_pure

theorem block (hl : l.kind = .leftBrace) (h : (sequence ss).Reads ts .rightBrace)
    (hr : r.kind = .rightBrace) : (Portion.block ss).Reads (l :: (ts ++ [r])) k := by
  intro marker rest _ n
  cases n with
  | zero => exact yields_exhausted
  | succ n =>
    rw [Grammar.block]
    simp only [List.cons_append, List.append_assoc, List.nil_append]
    apply yields_expect hl
    exact yields_bind (h marker (r :: rest) hr n) (yields_expect hr yields_pure)

theorem braced (hparses : (Portion.block ss).Parses ts k) (h : (Portion.block ss).Reads ts k) :
    (body ss).Reads ts k := by
  intro marker rest hrest n
  cases n with
  | zero => exact yields_exhausted
  | succ n =>
    cases hparses with
    | block hl _ _ =>
      rw [Grammar.body]
      apply yields_peek
      rw [if_pos (by exact hl)]
      exact h marker rest hrest n

theorem single (h : (statement s).Reads (t :: ts) k) (ht : t.kind ≠ .leftBrace) :
    (body [s]).Reads (t :: ts) k := by
  intro marker rest hrest n
  cases n with
  | zero => exact yields_exhausted
  | succ n =>
    rw [Grammar.body]
    apply yields_peek
    rw [if_neg (by exact ht)]
    exact yields_bind (h marker rest hrest n) yields_pure

theorem empty : (sequence []).Reads [] k := by
  intro marker rest hrest n
  cases n with
  | zero => exact yields_exhausted
  | succ n =>
    rw [statements]
    apply yields_peek
    rw [List.nil_append, if_pos (.inl hrest)]
    exact yields_pure

theorem next (hparses : (statement s).Parses ts (k.ahead us)) (hk : Grammar.Closes k)
    (h : (statement s).Reads ts (k.ahead us)) (hss : (sequence ss).Reads us k) :
    (sequence (s :: ss)).Reads (ts ++ us) k := by
  intro marker rest hrest n
  cases n with
  | zero => exact yields_exhausted
  | succ n =>
    obtain ⟨_, ⟨⟩⟩ | ⟨t, vs, rfl, ht⟩ := hparses.starts
    have hgo : ¬ (t.kind = k ∨ t.kind = .endOfInput) := by
      rintro (rfl | hend)
      · rcases hk with hk | hk <;> rw [hk] at ht <;> exact absurd ht (by decide)
      · rw [hend] at ht
        exact absurd ht (by decide)
    rw [statements, List.append_assoc]
    apply yields_peek
    rw [if_neg (by exact hgo)]
    refine yields_bind (h marker _ ?_ n) (yields_bind (hss marker rest hrest n) yields_pure)
    rw [kind_next_append, hrest]

end Portion.Reads

/-- What parses as a portion is read as that portion. -/
theorem Portion.Parses.reads {p : Portion} (h : p.Parses ts k) : p.Reads ts k := by
  induction h with
  | unterminated _ hne ih => exact .unterminated ih hne
  | terminated _ ht ih => exact .terminated ih ht
  | letAlone hk hname hne => exact .letAlone hk hname hne
  | declare hk hname ht hinit hends => exact .declare hk hname ht hinit hends
  | function hk hname hl hparams hsep hr _ ih => exact .function hk hname hl hparams hsep hr ih
  | branch hk hcondition hends _ hne ih => exact .branch hk hcondition hends ih hne
  | branchElse hk hcondition hends _ ht _ ih ih' =>
    exact .branchElse hk hcondition hends ih ht ih'
  | loop hk hcondition hends _ ih => exact .loop hk hcondition hends ih
  | importPath hk hpath => exact .importPath hk hpath
  | expression he hends => exact .expression he hends
  | block hl _ hr ih => exact .block hl ih hr
  | braced h ih => exact .braced h ih
  | single _ ht ih => exact .single ih ht
  | empty _ => exact .empty
  | next h hss ih ih' => exact .next h hss.closes ih ih'

/-! ## Programs -/

/-- A program is read if the reading of its statements ends at the first end marker. -/
theorem Program.reading_of_ofTokens {tokens : List Token} {program : Program}
    (h : Program.ofTokens tokens = .ok program) :
    ∃ marker : Token, ∃ n, marker.kind = .endOfInput ∧
      statements n .endOfInput marker (tokens.takeWhile (·.kind ≠ .endOfInput)) =
        .done program [] := by
  have hm := Token.splitAtEnd_marker tokens
  have hne : ∀ t ∈ (Token.splitAtEnd tokens).1, t.kind ≠ .endOfInput :=
    fun t => Token.kind_ne_of_mem_splitAtEnd
  rw [Program.ofTokens] at h
  rw [← Token.splitAtEnd_fst]
  generalize Token.splitAtEnd tokens = split at h hm hne ⊢
  obtain ⟨ahead, marker⟩ := split
  have hsound := (statementSound hm (depthFor ahead.length)).statements .endOfInput ahead
  dsimp only at h
  refine ⟨marker, depthFor ahead.length, hm, ?_⟩
  cases hr : statements (depthFor ahead.length) .endOfInput marker ahead with
  | done result rest =>
    rw [hr] at h hsound
    cases h
    obtain ⟨used, rfl, -, hend⟩ := hsound
    -- All tokens have been taken, since the reading stops at an end marker only.
    cases rest with
    | nil => rfl
    | cons t rest => exact absurd (or_self_iff.1 hend) (hne t (by simp))
  | failed _ | exhausted =>
    rw [hr] at h
    cases h

/-- A program is read off a list of tokens exactly if those before the first end marker parse as the
program in front of an end marker. -/
theorem Program.ofTokens_eq_ok_iff {tokens : List Token} {program : Program} :
    Program.ofTokens tokens = .ok program ↔
      (Portion.sequence program).Parses (tokens.takeWhile (·.kind ≠ .endOfInput)) .endOfInput := by
  constructor
  · intro h
    obtain ⟨marker, n, hm, hread⟩ := reading_of_ofTokens h
    have hparses := (statementParses hm n).statements .endOfInput (.inr rfl)
      (tokens.takeWhile (·.kind ≠ .endOfInput))
    rw [hread] at hparses
    obtain ⟨used, hused, hparses⟩ := hparses
    rw [List.append_nil] at hused
    rw [hused]
    exact hm ▸ hparses
  · intro h
    rw [← List.takeWhile_append_dropWhile (p := fun t : Token => t.kind ≠ .endOfInput)
      (l := tokens)]
    refine ofTokens_append ?_ ?_ fun marker hm n => ?_
    · rw [← Token.splitAtEnd_fst]
      exact fun t => Token.kind_ne_of_mem_splitAtEnd
    · intro t ht
      have hdrop := List.head?_dropWhile_not (fun t : Token => decide (t.kind ≠ .endOfInput)) tokens
      rw [Option.mem_def.1 ht] at hdrop
      simpa using hdrop
    · rw [← List.append_nil (tokens.takeWhile _)]
      exact h.reads marker [] hm n

end DialectScript
