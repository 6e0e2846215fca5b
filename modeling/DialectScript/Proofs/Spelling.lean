import DialectScript.Program.Grammar

/-!
# How programs are spelled

Which lists of tokens spell a program, said without a reader: a phrase is spelled by the tokens
of its parts in their order, with the punctuation between them.

**Expressions** (`Phrase.Spells`). A phrase has a level of precedence (`Tier`), and a phrase of
a level is also one of every looser level. Parentheses make any expression a primary one. The
left side of an operator is of the operator's own level and the right side of the next tighter
one; of an assignment it is the other way round. An object literal is looser than every operator.

**Lists** (`Separated`). Commas stand between the items, and one more may follow the last.

**Statements** (`Clause.Spells`). A semicolon may follow a statement, and the body of a branch or
loop is a block or a single statement; `Style.full` asks for every semicolon and every brace.
A statement is *dangling* if an `else` behind it would belong to a branch at its end, and
*unfinished* if a semicolon behind it would belong to a statement at its end (`Edge`). What stands
before an `else` is never dangling, so the `else` belongs to the nearest branch that can still
take one. What takes a semicolon has no unfinished part, so the semicolon belongs to the innermost
statement, and the branches around that statement can still take an `else`.
-/

namespace DialectScript

/-! ## Precedence -/

/-- The levels of precedence, loosest first. -/
inductive Tier where
  | assignment
  | object
  | disjunction
  | conjunction
  | comparison
  | sum
  | product
  | suffixed
  | primary
deriving DecidableEq

namespace Tier

/-- The next tighter level; the tightest has none but itself. -/
def tighter : Tier → Tier
  | .assignment => .object
  | .object => .disjunction
  | .disjunction => .conjunction
  | .conjunction => .comparison
  | .comparison => .sum
  | .sum => .product
  | .product => .suffixed
  | .suffixed => .primary
  | .primary => .primary

/-- How tight a level is. -/
def rank : Tier → Nat
  | .assignment => 0
  | .object => 1
  | .disjunction => 2
  | .conjunction => 3
  | .comparison => 4
  | .sum => 5
  | .product => 6
  | .suffixed => 7
  | .primary => 8

theorem rank_le_tighter (tier : Tier) : tier.rank ≤ tier.tighter.rank := by
  cases tier <;> decide

/-- Levels of one rank are the same, and the next tighter level has the next rank. -/
theorem eq_or_rank_tighter_le {tier tier' : Tier} (h : tier.rank ≤ tier'.rank) :
    tier = tier' ∨ tier.rank < tier.tighter.rank ∧ tier.tighter.rank ≤ tier'.rank := by
  cases tier <;> cases tier' <;> revert h <;> decide

end Tier

namespace Operator

/-- The level of an operator. -/
def tier : Operator → Tier
  | .or => .disjunction
  | .and => .conjunction
  | .equal | .notEqual | .less | .greater | .lessEqual | .greaterEqual => .comparison
  | .add | .subtract => .sum
  | .multiply | .divide | .remainder => .product

/-- The kind of token that writes an operator. -/
def kind : Operator → Kind
  | .add => .plus
  | .subtract => .minus
  | .multiply => .star
  | .divide => .slash
  | .remainder => .percent
  | .equal => .equalEqual
  | .notEqual => .notEqual
  | .less => .less
  | .greater => .greater
  | .lessEqual => .lessEqual
  | .greaterEqual => .greaterEqual
  | .and => .andAnd
  | .or => .orOr

end Operator

/-! ## Lists -/

/-- The items in their order with commas between them; one more comma may follow the last. -/
inductive Separated : List (List Token) → List Token → Prop
  | none : Separated [] []
  | last (item : List Token) : Separated [item] item
  | comma (item : List Token) {items : List (List Token)} {ts : List Token} {c : Token} :
      c.kind = .comma → Separated items ts → Separated (item :: items) (item ++ c :: ts)

/-- Items that `P` relates to their tokens, with commas between them. -/
def Listed {α : Type} (P : α → List Token → Prop) (as : List α) (ts : List Token) : Prop :=
  ∃ items : List (α × List Token),
    as = items.map (·.1) ∧ (∀ i ∈ items, P i.1 i.2) ∧ Separated (items.map (·.2)) ts

namespace Listed

variable {α : Type} {P : α → List Token → Prop} {a : α} {as : List α} {ts us : List Token}

theorem nil : Listed P [] [] := ⟨[], rfl, by simp, .none⟩

theorem single (h : P a ts) : Listed P [a] ts :=
  ⟨[(a, ts)], rfl, by simpa using h, .last ts⟩

theorem cons {c : Token} (h : P a ts) (hc : c.kind = .comma) (hs : Listed P as us) :
    Listed P (a :: as) (ts ++ c :: us) := by
  obtain ⟨items, rfl, hP, hsep⟩ := hs
  exact ⟨(a, ts) :: items, rfl, by simpa using ⟨h, fun b vs => hP (b, vs)⟩, .comma ts hc hsep⟩

end Listed

/-! ## Expressions -/

/-- What an expression is made of: expressions of some level, and entries of object literals. -/
inductive Phrase where
  | expression (tier : Tier) (e : Expr)
  | entry (p : Property Expr)

/-- The tokens spell the phrase. -/
inductive Phrase.Spells : Phrase → List Token → Prop
  /-- A phrase of a level is one of the next looser level. -/
  | looser {tier : Tier} {e : Expr} {ts : List Token} :
      Spells (.expression tier.tighter e) ts → Spells (.expression tier e) ts
  | identifier {t : Token} :
      t.kind = .identifier → Spells (.expression .primary (.identifier t.text)) [t]
  | number {t : Token} {x : Float} :
      t.kind = .number → Numeral.value? t.text = some x →
      Spells (.expression .primary (.number x)) [t]
  | string {t : Token} :
      t.kind = .string → Spells (.expression .primary (.string t.text)) [t]
  | parens {l r : Token} {e : Expr} {ts : List Token} :
      l.kind = .leftParen → Spells (.expression .assignment e) ts → r.kind = .rightParen →
      Spells (.expression .primary e) (l :: (ts ++ [r]))
  | array {l r : Token} {items : List (Expr × List Token)} {ts : List Token} :
      l.kind = .leftBracket → (∀ i ∈ items, Spells (.expression .assignment i.1) i.2) →
      Separated (items.map (·.2)) ts → r.kind = .rightBracket →
      Spells (.expression .primary (.array (items.map (·.1)))) (l :: (ts ++ [r]))
  | dot {d key : Token} {base : Expr} {ts : List Token} :
      Spells (.expression .suffixed base) ts → d.kind = .dot → key.kind = .identifier →
      Spells (.expression .suffixed (.member base (.identifier key.text) .dot)) (ts ++ [d, key])
  | bracket {l r : Token} {base index : Expr} {ts us : List Token} :
      Spells (.expression .suffixed base) ts → l.kind = .leftBracket →
      Spells (.expression .assignment index) us → r.kind = .rightBracket →
      Spells (.expression .suffixed (.member base index .bracket)) (ts ++ l :: (us ++ [r]))
  | call {l r : Token} {base : Expr} {items : List (Expr × List Token)} {ts us : List Token} :
      Spells (.expression .suffixed base) ts → l.kind = .leftParen →
      (∀ i ∈ items, Spells (.expression .assignment i.1) i.2) →
      Separated (items.map (·.2)) us → r.kind = .rightParen →
      Spells (.expression .suffixed (.call base (items.map (·.1)))) (ts ++ l :: (us ++ [r]))
  | binary {operator : Operator} {t : Token} {left right : Expr} {ts us : List Token} :
      Spells (.expression operator.tier left) ts → t.kind = operator.kind →
      Spells (.expression operator.tier.tighter right) us →
      Spells (.expression operator.tier (.binary operator left right)) (ts ++ t :: us)
  | object {l r : Token} {items : List (Property Expr × List Token)} {ts : List Token} :
      l.kind = .leftBrace → (∀ i ∈ items, Spells (.entry i.1) i.2) →
      Separated (items.map (·.2)) ts → r.kind = .rightBrace →
      Spells (.expression .object (.object (items.map (·.1)))) (l :: (ts ++ [r]))
  | assign {t : Token} {target value : Expr} {ts us : List Token} :
      Spells (.expression .object target) ts → t.kind = .equals →
      Spells (.expression .assignment value) us →
      Spells (.expression .assignment (.assign target value)) (ts ++ t :: us)
  | shorthand {key : Token} :
      key.kind = .identifier → Spells (.entry (.shorthand key.text)) [key]
  | pair {key c : Token} {value : Expr} {ts : List Token} :
      key.kind = .identifier → c.kind = .colon → Spells (.expression .assignment value) ts →
      Spells (.entry (.pair key.text value)) (key :: c :: ts)

/-! ## First tokens of expressions -/

/-- The kinds of token that a phrase of a level may start with. -/
def Tier.starters (tier : Tier) : List Kind :=
  let unbraced := [.identifier, .number, .string, .leftParen, .leftBracket]
  if tier.rank ≤ Tier.object.rank then .leftBrace :: unbraced else unbraced

theorem Tier.starters_tighter {tier : Tier} {kind : Kind} (h : kind ∈ tier.tighter.starters) :
    kind ∈ tier.starters := by
  cases tier <;> simp_all [Tier.starters, Tier.tighter, Tier.rank]

/-- The kinds of token that a phrase may start with. -/
def Phrase.starters : Phrase → List Kind
  | .expression tier _ => tier.starters
  | .entry _ => [.identifier]

/-- No phrase is empty, and its first token is one that phrases start with. -/
theorem Phrase.Spells.starts {p : Phrase} {ts : List Token} (h : p.Spells ts) :
    ∃ t us, ts = t :: us ∧ t.kind ∈ p.starters := by
  induction h with
  | looser _ ih =>
    obtain ⟨t, us, rfl, ht⟩ := ih
    exact ⟨t, us, rfl, Tier.starters_tighter ht⟩
  | identifier ht | number ht _ | string ht | parens ht _ _ _ | array ht _ _ _ _
  | object ht _ _ _ _ =>
    exact ⟨_, _, rfl, by simp [ht, Phrase.starters, Tier.starters, Tier.rank]⟩
  | dot _ _ _ ih | bracket _ _ _ _ ih _ | call _ _ _ _ _ ih _ | binary _ _ _ ih _
  | assign _ _ _ ih _ =>
    obtain ⟨t, us, rfl, ht⟩ := ih
    exact ⟨t, _, rfl, ht⟩
  | shorthand hk | pair hk _ _ _ => exact ⟨_, _, rfl, by simp [hk, Phrase.starters]⟩

/-! ## Statements -/

/-- How fully statements are punctuated. -/
inductive Style where
  /-- Every statement has its semicolon, and every body its braces. -/
  | full
  /-- Semicolons may be left out, and so may the braces around a single statement. -/
  | free
deriving DecidableEq

/-- The right edge of a clause: what would belong to a part of the clause if it stood behind. -/
structure Edge where
  /-- An `else` would belong to a branch there. -/
  dangling : Bool
  /-- A semicolon would belong to a statement there. -/
  unfinished : Bool
deriving DecidableEq

/-- Nothing that stands behind belongs to a part of the clause. -/
def Edge.closed : Edge := ⟨false, false⟩

/-- What a program is made of: statements with and without their semicolon, blocks, bodies of
branches and loops, and sequences of statements. -/
inductive Clause where
  | statement (edge : Edge) (s : Stmt)
  | bare (edge : Edge) (s : Stmt)
  | block (ss : List Stmt)
  | body (edge : Edge) (ss : List Stmt)
  | sequence (ss : List Stmt)

/-- The keyword of a declaration. -/
def Mutability.keyword : Mutability → Kind
  | .mutable => .letKeyword
  | .constant => .constKeyword

/-- The tokens spell the clause. -/
inductive Clause.Spells (style : Style) : Clause → List Token → Prop
  | unterminated {edge : Edge} {s : Stmt} {ts : List Token} :
      style = .free → Spells style (.bare edge s) ts →
      Spells style (.statement { edge with unfinished := true } s) ts
  /-- No statement inside could take the semicolon. -/
  | terminated {edge : Edge} {s : Stmt} {ts : List Token} {t : Token} :
      Spells style (.bare edge s) ts → edge.unfinished = false → t.kind = .semicolon →
      Spells style (.statement .closed s) (ts ++ [t])
  | letAlone {k name : Token} :
      k.kind = .letKeyword → name.kind = .identifier →
      Spells style (.bare .closed (.declare .mutable name.text none)) [k, name]
  | declare {mutability : Mutability} {k name t : Token} {init : Expr} {ts : List Token} :
      k.kind = mutability.keyword → name.kind = .identifier → t.kind = .equals →
      Phrase.Spells (.expression .assignment init) ts →
      Spells style (.bare .closed (.declare mutability name.text (some init)))
        (k :: name :: t :: ts)
  | function {k name l r : Token} {params : List Token} {body : List Stmt} {ts us : List Token} :
      k.kind = .functionKeyword → name.kind = .identifier → l.kind = .leftParen →
      (∀ p ∈ params, p.kind = .identifier) → Separated (params.map ([·])) ts →
      r.kind = .rightParen → Spells style (.block body) us →
      Spells style (.bare .closed (.function name.text (params.map (·.text)) body))
        (k :: name :: l :: (ts ++ r :: us))
  | branch {k : Token} {condition : Expr} {edge : Edge} {thenBody : List Stmt}
      {ts us : List Token} :
      k.kind = .ifKeyword → Phrase.Spells (.expression .assignment condition) ts →
      Spells style (.body edge thenBody) us →
      Spells style (.bare { edge with dangling := true } (.branch condition thenBody none))
        (k :: (ts ++ us))
  /-- No branch inside the first body could take the `else`. -/
  | branchElse {k t : Token} {condition : Expr} {edge edge' : Edge}
      {thenBody elseBody : List Stmt} {ts us vs : List Token} :
      k.kind = .ifKeyword → Phrase.Spells (.expression .assignment condition) ts →
      Spells style (.body edge thenBody) us → edge.dangling = false → t.kind = .elseKeyword →
      Spells style (.body edge' elseBody) vs →
      Spells style (.bare edge' (.branch condition thenBody (some elseBody)))
        (k :: (ts ++ (us ++ t :: vs)))
  | loop {k : Token} {condition : Expr} {edge : Edge} {body : List Stmt}
      {ts us : List Token} :
      k.kind = .whileKeyword → Phrase.Spells (.expression .assignment condition) ts →
      Spells style (.body edge body) us →
      Spells style (.bare edge (.loop condition body)) (k :: (ts ++ us))
  | importPath {k path : Token} :
      k.kind = .importKeyword → path.kind = .string →
      Spells style (.bare .closed (.importPath path.text)) [k, path]
  | expression {e : Expr} {ts : List Token} :
      Phrase.Spells (.expression .assignment e) ts →
      Spells style (.bare .closed (.expression e)) ts
  | block {l r : Token} {ss : List Stmt} {ts : List Token} :
      l.kind = .leftBrace → Spells style (.sequence ss) ts → r.kind = .rightBrace →
      Spells style (.block ss) (l :: (ts ++ [r]))
  | braced {ss : List Stmt} {ts : List Token} :
      Spells style (.block ss) ts → Spells style (.body .closed ss) ts
  /-- A body that starts with a brace is a block, and so no object literal. -/
  | single {edge : Edge} {s : Stmt} {t : Token} {ts : List Token} :
      style = .free → Spells style (.statement edge s) (t :: ts) → t.kind ≠ .leftBrace →
      Spells style (.body edge [s]) (t :: ts)
  | empty : Spells style (.sequence []) []
  | next {edge : Edge} {s : Stmt} {ss : List Stmt} {ts us : List Token} :
      Spells style (.statement edge s) ts → Spells style (.sequence ss) us →
      Spells style (.sequence (s :: ss)) (ts ++ us)

/-- The kinds of token that a statement may start with. -/
def Stmt.starters : List Kind :=
  [.letKeyword, .constKeyword, .functionKeyword, .ifKeyword, .whileKeyword, .importKeyword] ++
    Tier.assignment.starters

/-- The kinds of token that a clause may start with, unless it is empty. -/
def Clause.starters : Clause → List Kind
  | .block _ => [.leftBrace]
  | _ => Stmt.starters

/-- No clause but a sequence is empty, and its first token is one that clauses start with. -/
theorem Clause.Spells.starts {style : Style} {c : Clause} {ts : List Token}
    (h : c.Spells style ts) :
    (∃ ss, c = .sequence ss) ∨ ∃ t us, ts = t :: us ∧ t.kind ∈ c.starters := by
  induction h with
  | unterminated _ _ ih | single _ _ _ ih =>
    obtain ⟨_, ⟨⟩⟩ | ⟨t, us, h, ht⟩ := ih
    exact .inr ⟨t, us, h, ht⟩
  | terminated _ _ _ ih =>
    obtain ⟨_, ⟨⟩⟩ | ⟨t, us, rfl, ht⟩ := ih
    exact .inr ⟨t, _, rfl, ht⟩
  | braced _ ih =>
    obtain ⟨_, ⟨⟩⟩ | ⟨t, us, rfl, ht⟩ := ih
    have ht := List.mem_singleton.1 ht
    exact .inr ⟨t, us, rfl, by
      simp [ht, Clause.starters, Stmt.starters, Tier.starters, Tier.rank]⟩
  | @declare mutability _ _ _ _ _ hk =>
    exact .inr ⟨_, _, rfl, by
      cases mutability <;> simp [hk, Clause.starters, Stmt.starters, Mutability.keyword]⟩
  | letAlone hk | function hk | branch hk | branchElse hk | loop hk | importPath hk | block hk =>
    exact .inr ⟨_, _, rfl, by simp [hk, Clause.starters, Stmt.starters]⟩
  | expression he =>
    obtain ⟨t, us, rfl, ht⟩ := he.starts
    exact .inr ⟨t, us, rfl, List.mem_append_right _ ht⟩
  | empty | next => exact .inl ⟨_, rfl⟩

/-- The tokens spell the program. -/
def Program.Spells (style : Style) (program : Program) (ts : List Token) : Prop :=
  Clause.Spells style (.sequence program) ts

/-! ## Kinds of token -/

theorem Separated.mem {items : List (List Token)} {ts : List Token} {t : Token}
    (h : Separated items ts) (ht : t ∈ ts) : t.kind = .comma ∨ ∃ item ∈ items, t ∈ item := by
  induction h with
  | none => cases ht
  | last item => exact .inr ⟨item, by simp, ht⟩
  | comma item hc _ ih =>
    rcases List.mem_append.1 ht with ht | ht
    · exact .inr ⟨item, by simp, ht⟩
    · rcases List.mem_cons.1 ht with rfl | ht
      · exact .inl hc
      · rcases ih ht with hk | ⟨item', hitem, ht⟩
        · exact .inl hk
        · exact .inr ⟨item', by simp [hitem], ht⟩

/-- The kinds of a list's tokens are those of its items' tokens, and commas. -/
theorem Separated.forall_kind {items : List (List Token)} {ts : List Token} {P : Kind → Prop}
    (h : Separated items ts) (hcomma : P .comma) (hitems : ∀ item ∈ items, ∀ t ∈ item, P t.kind) :
    ∀ t ∈ ts, P t.kind := by
  intro t ht
  rcases h.mem ht with hk | ⟨item, hitem, ht⟩
  · rw [hk]
    exact hcomma
  · exact hitems item hitem t ht

/-- The kinds of token that phrases are made of. The others are those of statements, and the end
marker. -/
def Phrase.kinds : List Kind :=
  [.number, .identifier, .string, .leftParen, .rightParen, .leftBrace, .rightBrace, .leftBracket,
    .rightBracket, .comma, .colon, .dot, .equals] ++ Operator.all.map Operator.kind

theorem Phrase.Spells.kind_mem {p : Phrase} {ts : List Token} (h : p.Spells ts) :
    ∀ t ∈ ts, t.kind ∈ Phrase.kinds := by
  induction h with
  | looser _ ih => exact ih
  | identifier ht | number ht _ | string ht | shorthand ht => simp [ht, Phrase.kinds]
  | parens hl _ hr ih => simpa [hl, hr, or_imp, forall_and] using ⟨by decide, ih, by decide⟩
  | array hl _ hsep hr ih | object hl _ hsep hr ih =>
    have hitems := hsep.forall_kind (P := (· ∈ Phrase.kinds)) (by decide) (List.forall_mem_map.2 ih)
    simpa [hl, hr, or_imp, forall_and] using ⟨by decide, hitems, by decide⟩
  | dot _ hd hkey ih => simpa [hd, hkey, or_imp, forall_and] using ⟨ih, by decide, by decide⟩
  | bracket _ hl _ hr ih ih' =>
    simpa [hl, hr, or_imp, forall_and] using ⟨ih, by decide, ih', by decide⟩
  | call _ hl _ hsep hr ih ih' =>
    have hitems := hsep.forall_kind (P := (· ∈ Phrase.kinds)) (by decide)
      (List.forall_mem_map.2 ih')
    simpa [hl, hr, or_imp, forall_and] using ⟨ih, by decide, hitems, by decide⟩
  | @binary operator _ _ _ _ _ _ ht _ ih ih' =>
    have hop : operator.kind ∈ Phrase.kinds := by cases operator <;> decide
    simpa [ht, or_imp, forall_and] using ⟨ih, hop, ih'⟩
  | assign _ ht _ ih ih' => simpa [ht, or_imp, forall_and] using ⟨ih, by decide, ih'⟩
  | pair hkey hc _ ih => simpa [hkey, hc] using ⟨by decide, by decide, ih⟩

theorem Phrase.Spells.kind_ne {p : Phrase} {ts : List Token} {kind : Kind} (h : p.Spells ts)
    (hkind : kind ∉ Phrase.kinds) : ∀ t ∈ ts, t.kind ≠ kind := by
  rintro t ht rfl
  exact hkind (h.kind_mem t ht)

/-- No end marker stands among the tokens of a phrase. -/
theorem Phrase.Spells.ne_end {p : Phrase} {ts : List Token} (h : p.Spells ts) :
    ∀ t ∈ ts, t.kind ≠ .endOfInput :=
  h.kind_ne (by decide)

/-- No end marker stands among the tokens of a clause. -/
theorem Clause.Spells.ne_end {style : Style} {c : Clause} {ts : List Token}
    (h : c.Spells style ts) : ∀ t ∈ ts, t.kind ≠ .endOfInput := by
  induction h with
  | unterminated _ _ ih | braced _ ih | single _ _ _ ih => exact ih
  | terminated _ _ ht ih => simpa [ht, or_imp, forall_and] using ih
  | letAlone hk hname | importPath hk hname => simp [hk, hname]
  | @declare mutability _ _ _ _ _ hk hname ht he =>
    cases mutability <;> simpa [hk, hname, ht, Mutability.keyword] using he.ne_end
  | function hk hname hl hparams hsep hr _ ih =>
    have hne := hsep.forall_kind (P := (· ≠ .endOfInput)) (by decide)
      (by simpa using fun p hp => by rw [hparams p hp]; decide)
    simpa [hk, hname, hl, hr, or_imp, forall_and] using ⟨hne, ih⟩
  | branch hk he _ ih | loop hk he _ ih =>
    simpa [hk, or_imp, forall_and] using ⟨he.ne_end, ih⟩
  | branchElse hk he _ _ ht _ ih ih' =>
    simpa [hk, ht, or_imp, forall_and] using ⟨he.ne_end, ih, ih'⟩
  | expression he => exact he.ne_end
  | block hl _ hr ih => simpa [hl, hr, or_imp, forall_and] using ih
  | empty => simp
  | next _ _ ih ih' => simpa [or_imp, forall_and] using ⟨ih, ih'⟩

end DialectScript
