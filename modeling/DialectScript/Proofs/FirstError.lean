import DialectScript.Proofs.Completeness
import DialectScript.Proofs.Prompt
import DialectScript.Proofs.Soundness

/-!
# Errors are reported at the first offending token

**Theorem (`Program.ofTokens_error`).** If a list of tokens is no program, there is exactly one
token in it, the end marker behind it included, that decides this (`FirstOffence`): the error names
it, every list with the same tokens up to it fails with the same error, and the tokens before it
are those of some program with more tokens behind them.

The proof is an induction on the bound of the readers (`Prompts`, `StatementPrompts`). A reader
stops where no token can carry its phrase on, in front of the closing token of a list, or, if it
reads statements, in front of a closing brace or the end. A phrase is completed from nothing by a
name, by two braces, or by nothing at all, and these are read because they are spelled.
-/

namespace DialectScript

namespace Grammar

open Reader

variable {marker : Token} {n : Nat}

/-! ## Expressions -/

/-- With this bound, the readers of expressions are prompt. -/
structure Prompts (marker : Token) (n : Nat) : Prop where
  expression : ∀ ts, Prompt Tier.assignment.Stops expression marker n ts
  unassigned : ∀ ts, Prompt Tier.object.Stops unassigned marker n ts
  properties : ∀ ts, Prompt (· = .rightBrace) properties marker n ts
  property : ∀ ts, Prompt (fun kind => kind = .comma ∨ kind = .rightBrace) property marker n ts
  binary : ∀ tier : Tier, tier.IsChain → ∀ ts,
    Prompt tier.Stops (fun n => binary n tier.levels) marker n ts
  chain : ∀ (tier : Tier) level tighter, tier.IsChain → tier.levels = level :: tighter →
    ∀ left ts, Prompt tier.Stops (fun n => chain n level tighter left) marker n ts
  suffixed : ∀ ts, Prompt Tier.suffixed.Stops suffixed marker n ts
  suffixes : ∀ base ts, Prompt Tier.suffixed.Stops (fun n => suffixes n base) marker n ts
  primary : ∀ ts, Prompt (fun _ => True) primary marker n ts
  expressions : ∀ close, close = .rightParen ∨ close = .rightBracket → ∀ ts,
    Prompt (· = close) (fun n => expressions n close) marker n ts

/-- A name is an expression of every level. -/
theorem name_spells (tier : Tier) :
    (Phrase.expression tier (.identifier "")).Spells [Token.floating .identifier ""] := by
  have h := Phrase.Spells.identifier (Token.floating_kind .identifier "")
  exact h.loosen (by cases tier <;> decide)

theorem expression_completes : Completes Tier.assignment.Stops expression [] :=
  ⟨[Token.floating .identifier ""], .identifier "", (name_spells .assignment).reads⟩

theorem unassigned_completes : Completes Tier.object.Stops unassigned [] :=
  ⟨[Token.floating .identifier ""], .identifier "", (name_spells .object).reads⟩

theorem primary_completes : Completes (fun _ => True) primary [] :=
  ⟨[Token.floating .identifier ""], .identifier "", fun marker rest _ =>
    (name_spells .primary).reads marker rest⟩

/-- A reading of a phrase takes a token. -/
theorem takes_some {α : Type} {r : Reading α} {phrase : α → Phrase} {ts : List Token}
    (h : r.Takes ts fun a us _ => (phrase a).Spells us) : r.Takes ts fun _ us _ => us ≠ [] := by
  refine takes_mono h fun a us _ hspells => ?_
  obtain ⟨t, us, rfl, -⟩ := hspells.starts
  exact List.cons_ne_nil t us

theorem chain_opens {tier : Tier} {level : Operator.Level} {tighter : List Operator.Level}
    (ht : tier.IsChain) (hl : tier.levels = level :: tighter) (left : Expr) :
    Opens tier.Stops tier.tighter.Stops fun n => chain n level tighter left := by
  refine opens_nil (a := left) (fun _ => Tier.Stops.tighter) fun marker rest hrest n => ?_
  have hloop := Tier.loop_yields (e := left) ht hrest n
  rwa [Tier.loop, hl] at hloop

theorem suffixes_opens {stop : Kind → Prop} (hstop : ∀ kind, Tier.suffixed.Stops kind → stop kind)
    (base : Expr) : Opens Tier.suffixed.Stops stop fun n => suffixes n base :=
  opens_nil (a := base) hstop fun _ _ hrest n =>
    Tier.loop_yields (e := base) (show Tier.suffixed.IsChain by decide) hrest n

namespace Prompts

variable {close : Kind}

/-- An expression as an item of a list. -/
theorem listed (ih : Prompts marker n) (hclose : close.tier? = none) (ts : List Token) :
    Prompt (fun kind => kind = .comma ∨ kind = close) Grammar.expression marker n ts := by
  refine (ih.expression ts).anti ?_
  rintro _ (rfl | rfl)
  · exact Tier.stops_of_tier?_eq_none rfl
  · exact Tier.stops_of_tier?_eq_none hclose

/-- An expression in front of a closing token. -/
theorem closed (ih : Prompts marker n) (hclose : close.tier? = none) (ts : List Token) :
    Prompt (· = close) Grammar.expression marker n ts :=
  (ih.listed hclose ts).anti fun _ => .inr

theorem expression_succ (hm : marker.kind = .endOfInput) (ih : Prompts marker n)
    (ts : List Token) :
    Prompt Tier.assignment.Stops Grammar.expression marker (n + 1) ts := by
  refine prompt_succ Grammar.expression.eq_1 Grammar.expression.eq_2 ?_
  refine prompt_then (fun _ => Tier.Stops.tighter) (ih.unassigned ts) (fun target rest => ?_)
    fun target => ?_
  · exact prompt_accept hm (by decide) (fun h => h.ne_equals rfl)
      (fun rest => prompt_map (ih.expression rest)) fun _ => rfl
  · exact opens_accept (fun _ => Tier.Stops.tighter) (fun h => h.ne_equals rfl) fun _ => rfl

theorem unassigned_succ (hm : marker.kind = .endOfInput) (ih : Prompts marker n)
    (ts : List Token) : Prompt Tier.object.Stops Grammar.unassigned marker (n + 1) ts := by
  refine prompt_succ Grammar.unassigned.eq_1 Grammar.unassigned.eq_2 ?_
  by_cases h : (next marker ts).kind = .leftBrace
  · refine prompt_accept_token hm (by decide) h ?_
    exact prompt_closed hm (by decide) (ih.properties ts.tail)
      (fun entries _ rest _ => prompt_pure) fun entries _ _ => completes_pure
  · refine prompt_same (Q := fun n => Grammar.binary n Operator.levels)
      (fun m marker' rest hnext => ?_)
      (takes_some ((sound hm n).binary .disjunction (by decide) ts))
      (completes_of_succ Grammar.unassigned.eq_2 unassigned_completes)
      ((ih.binary .disjunction (by decide) ts).anti fun _ => Tier.Stops.tighter)
    rw [bind_apply, accept, hnext, if_neg h]
    rfl

theorem properties_succ (hm : marker.kind = .endOfInput) (ih : Prompts marker n)
    (ts : List Token) : Prompt (· = .rightBrace) Grammar.properties marker (n + 1) ts :=
  prompt_succ Grammar.properties.eq_1 properties_eq_items
    (prompt_items hm (by decide) (ih.property ts) (takes_some ((sound hm n).property ts))
      ih.properties)

theorem property_succ (hm : marker.kind = .endOfInput) (ih : Prompts marker n)
    (ts : List Token) :
    Prompt (fun kind => kind = .comma ∨ kind = .rightBrace) Grammar.property marker (n + 1) ts := by
  refine prompt_succ Grammar.property.eq_1 Grammar.property.eq_2 ?_
  simp only [name_bind]
  refine prompt_expect hm (by decide) (fun _ => ?_) fun key _ => ?_
  · exact prompt_accept hm (by decide) (by decide)
      (fun rest => prompt_map (ih.listed rfl rest)) fun _ => rfl
  · exact completes_accept (by decide) fun _ => rfl

theorem binary_succ (ih : Prompts marker n) (tier : Tier) (ht : tier.IsChain)
    (ts : List Token) :
    Prompt tier.Stops (fun n => Grammar.binary n tier.levels) marker (n + 1) ts := by
  cases hl : tier.levels with
  | nil =>
    obtain rfl := Tier.levels_eq_nil ht hl
    exact prompt_succ (by rw [Grammar.binary]) (fun n => by rw [Grammar.binary]) (ih.suffixed ts)
  | cons level tighter =>
    obtain ⟨htighter, rfl, -⟩ := Tier.levels_eq_cons ht hl
    refine prompt_succ (by rw [Grammar.binary]) (fun n => by rw [Grammar.binary]) ?_
    refine prompt_then (fun _ => Tier.Stops.tighter) (ih.binary _ htighter ts)
      (ih.chain tier level _ ht hl) fun left => ?_
    exact chain_opens ht hl left

theorem chain_succ (hm : marker.kind = .endOfInput) (ih : Prompts marker n) (tier : Tier)
    (level : Operator.Level) (tighter : List Operator.Level) (ht : tier.IsChain)
    (hl : tier.levels = level :: tighter) (left : Expr) (ts : List Token) :
    Prompt tier.Stops (fun n => Grammar.chain n level tighter left) marker (n + 1) ts := by
  obtain ⟨htighter, rfl, hlevel⟩ := Tier.levels_eq_cons ht hl
  refine prompt_succ (by rw [Grammar.chain]) (fun n => by rw [Grammar.chain]) ?_
  cases hop : level (next marker ts).kind with
  | none =>
    refine prompt_peek_return (a := left) fun m t hnext => ?_
    have hnone : level t.kind = none := by
      rcases hnext with rfl | hstop
      · exact hop
      · exact hstop.level_eq_none ht hl
    rw [hnone]
  | some operator =>
    have hk : (next marker ts).kind ≠ .endOfInput := by
      rw [← ((hlevel _ _).1 hop).2]
      cases operator <;> decide
    refine prompt_peek_take hm hk (fun m => by rw [hop]) ?_
    refine prompt_then (fun _ => Tier.Stops.tighter) (ih.binary _ htighter ts.tail)
      (fun right => ih.chain tier level _ ht hl (.binary operator left right)) fun right => ?_
    exact chain_opens ht hl _

theorem suffixed_succ (ih : Prompts marker n) (ts : List Token) :
    Prompt Tier.suffixed.Stops Grammar.suffixed marker (n + 1) ts :=
  prompt_succ Grammar.suffixed.eq_1 Grammar.suffixed.eq_2
    (prompt_then (fun _ _ => trivial) (ih.primary ts) ih.suffixes fun base =>
      suffixes_opens (fun _ _ => trivial) base)

theorem suffixes_succ (hm : marker.kind = .endOfInput) (ih : Prompts marker n) (base : Expr)
    (ts : List Token) :
    Prompt Tier.suffixed.Stops (fun n => Grammar.suffixes n base) marker (n + 1) ts := by
  refine prompt_succ (by rw [Grammar.suffixes]) (fun n => by rw [Grammar.suffixes]) ?_
  -- A token that starts no suffix is only looked at, and any other such one would do as well.
  by_cases hs : Tier.suffixed.Stops (next marker ts).kind
  · refine prompt_peek_return (a := base) fun m t hnext => ?_
    have ht : Tier.suffixed.Stops t.kind := by
      rcases hnext with rfl | hstop
      · exact hs
      · exact hstop
    cases hk : t.kind with
    | dot | leftBracket | leftParen => exact absurd (ht _ (by rw [hk]; rfl)) (by decide)
    | _ => rfl
  · have hopens (base : Expr) :
        Completes Tier.suffixed.Stops (fun n => Grammar.suffixes n base) [] :=
      (suffixes_opens (fun _ h => h) base).completes
    cases hk : (next marker ts).kind with
    | dot =>
      refine prompt_peek_take hm (by rw [hk]; decide) (fun m => by rw [hk]) ?_
      simp only [name_bind]
      exact prompt_expect hm (by decide) (fun _ => ih.suffixes _ _) fun key _ => hopens _
    | leftBracket =>
      refine prompt_peek_take hm (by rw [hk]; decide) (fun m => by rw [hk]) ?_
      exact prompt_closed hm (by decide) (ih.closed rfl ts.tail)
        (fun index _ rest _ => ih.suffixes _ rest) fun index _ _ => hopens _
    | leftParen =>
      refine prompt_peek_take hm (by rw [hk]; decide) (fun m => by rw [hk]) ?_
      exact prompt_closed hm (by decide) (ih.expressions .rightParen (.inl rfl) ts.tail)
        (fun args _ rest _ => ih.suffixes _ rest) fun args _ _ => hopens _
    | _ =>
      refine absurd (fun tier ht => ?_) hs
      rw [hk] at ht
      cases ht <;> decide

theorem primary_succ (hm : marker.kind = .endOfInput) (ih : Prompts marker n)
    (ts : List Token) : Prompt (fun _ => True) Grammar.primary marker (n + 1) ts := by
  have hc := completes_of_succ Grammar.primary.eq_2 primary_completes
  refine prompt_succ Grammar.primary.eq_1 Grammar.primary.eq_2 ?_
  cases hk : (next marker ts).kind with
  | identifier =>
    exact prompt_peek_take hm (by rw [hk]; decide) (fun m => by rw [hk]) prompt_pure
  | number =>
    cases hvalue : Numeral.value? (next marker ts).text with
    | some x =>
      refine prompt_peek_take hm (by rw [hk]; decide) (fun m => by rw [hk]) ?_
      rw [hvalue]
      exact prompt_pure
    | none =>
      exact prompt_peek_reject (fun m => by rw [hk]) (fun m => by rw [hvalue])
        (.invalidNumber hk hvalue) hc
  | string =>
    exact prompt_peek_take hm (by rw [hk]; decide) (fun m => by rw [hk]) prompt_pure
  | leftParen =>
    refine prompt_peek_take hm (by rw [hk]; decide) (fun m => by rw [hk]) ?_
    exact prompt_closed hm (by decide) (ih.closed rfl ts.tail)
      (fun _ _ _ _ => prompt_pure) fun _ _ _ => completes_pure
  | leftBracket =>
    refine prompt_peek_take hm (by rw [hk]; decide) (fun m => by rw [hk]) ?_
    exact prompt_closed hm (by decide) (ih.expressions .rightBracket (.inr rfl) ts.tail)
      (fun _ _ _ _ => prompt_pure) fun _ _ _ => completes_pure
  | _ =>
    exact prompt_peek_fail (fun m => by rw [hk]) (.noExpression (by rw [hk]; decide)) hc

theorem expressions_succ (hm : marker.kind = .endOfInput) (ih : Prompts marker n) (close : Kind)
    (hclose : close = .rightParen ∨ close = .rightBracket) (ts : List Token) :
    Prompt (· = close) (fun n => Grammar.expressions n close) marker (n + 1) ts := by
  have hcomma : close ≠ .comma := by rcases hclose with rfl | rfl <;> decide
  have hnone : close.tier? = none := by rcases hclose with rfl | rfl <;> rfl
  exact prompt_succ (by rw [Grammar.expressions]) (fun n => expressions_eq_items n close)
    (prompt_items hm hcomma (ih.listed hnone ts) (takes_some ((sound hm n).expression ts))
      (ih.expressions close hclose))

end Prompts

/-- With any bound, the readers of expressions are prompt. -/
theorem prompts (hm : marker.kind = .endOfInput) (n : Nat) : Prompts marker n := by
  induction n with
  | zero => constructor <;> intros <;> exact prompt_exhausted (by rfl)
  | succ n ih =>
    exact
      { expression := ih.expression_succ hm
        unassigned := ih.unassigned_succ hm
        properties := ih.properties_succ hm
        property := ih.property_succ hm
        binary := ih.binary_succ
        chain := ih.chain_succ hm
        suffixed := ih.suffixed_succ
        suffixes := ih.suffixes_succ hm
        primary := ih.primary_succ hm
        expressions := ih.expressions_succ hm }

/-! ## Parameters -/

theorem parameters_opens {stop : Kind → Prop} (hstop : ∀ kind, kind = .rightParen → stop kind) :
    Opens (· = .rightParen) stop parameters :=
  opens_nil hstop fun marker rest hrest n =>
    @parameters_yields marker [] rest [] (by simp) .none hrest n

theorem parameters_prompt (hm : marker.kind = .endOfInput) (n : Nat) (ts : List Token) :
    Prompt (· = .rightParen) parameters marker n ts := by
  induction n generalizing ts with
  | zero => exact prompt_exhausted rfl
  | succ n ih =>
    have hc := completes_of_succ parameters.eq_2 (parameters_opens fun _ h => h).completes
    refine prompt_succ parameters.eq_1 parameters.eq_2 ?_
    by_cases hclose : (next marker ts).kind = .rightParen
    · refine prompt_peek_return (a := []) fun m t ht => if_pos ?_
      rcases ht with rfl | ht
      · exact hclose
      · exact ht
    · by_cases hk : (next marker ts).kind = .identifier
      · refine prompt_peek_take hm (by rw [hk]; decide)
          (fun m => by rw [if_neg hclose, if_pos hk]) ?_
        exact prompt_accept hm (by decide) (by decide) (fun rest => prompt_map (ih rest))
          fun _ => rfl
      · exact prompt_peek_fail (fun m => by rw [if_neg hclose, if_neg hk]) (.noParameter hk) hc

/-! ## Statements -/

/-- In front of a token of the kind, a statement that is complete ends. -/
def Closes (kind : Kind) : Prop := kind = .rightBrace ∨ kind = .endOfInput

theorem Closes.stops {kind : Kind} (h : Closes kind) : Tier.assignment.Stops kind := by
  rcases h with rfl | rfl <;> exact Tier.stops_of_tier?_eq_none rfl

/-- With this bound, the readers of statements are prompt. -/
structure StatementPrompts (marker : Token) (n : Nat) : Prop where
  statement : ∀ ts, Prompt Closes statement marker n ts
  bareStatement : ∀ ts, Prompt Closes bareStatement marker n ts
  body : ∀ ts, Prompt Closes body marker n ts
  block : ∀ ts, Prompt (fun _ => True) block marker n ts
  statements : ∀ stop, Closes stop → ∀ ts,
    Prompt (· = stop) (fun n => statements n stop) marker n ts

/-- Two braces are a block. -/
theorem braces_spells {style : Style} : (Clause.block []).Spells style
    [Token.floating .leftBrace "", Token.floating .rightBrace ""] :=
  .block (Token.floating_kind .leftBrace "") .empty (Token.floating_kind .rightBrace "")

theorem block_completes : Completes (fun _ => True) block [] :=
  ⟨[Token.floating .leftBrace "", Token.floating .rightBrace ""], [], fun marker rest _ =>
    Clause.Spells.reads braces_spells marker rest⟩

theorem body_opens : Opens Closes Tier.assignment.Stops body :=
  ⟨_, [], fun marker rest _ => ⟨Tier.stops_of_tier?_eq_none rfl,
    Clause.Spells.reads (.braced braces_spells) marker rest⟩⟩

theorem statements_opens {stop : Kind} {stop' : Kind → Prop} (hstop : stop' stop)
    (hclose : Closes stop) : Opens (· = stop) stop' fun n => statements n stop := by
  refine opens_nil (a := []) (fun _ h => h ▸ hstop) fun marker rest hrest n => ?_
  refine Clause.Spells.reads .empty marker rest stop hrest ?_ n
  rcases hclose with rfl | rfl <;> decide

theorem bareStatement_completes : Completes Closes bareStatement [] := by
  refine ⟨[Token.floating .identifier ""], .expression (.identifier ""),
    fun marker rest hrest n => ?_⟩
  cases n with
  | zero => exact yields_exhausted
  | succ n =>
    rw [List.nil_append, bareStatement_eq_expression (show Kind.identifier ∈ _ by decide)]
    exact yields_bind ((name_spells .assignment).reads marker rest hrest.stops n) yields_pure

/-- A reading of a clause takes a token, unless the clause is a sequence. -/
theorem takes_some_clause {α : Type} {r : Reading α} {ts : List Token}
    {P : α → List Token → List Token → Prop} (h : r.Takes ts P)
    (hP : ∀ a us rest, P a us rest → ∃ c : Clause, c.Spells .free us ∧ ∀ ss, c ≠ .sequence ss) :
    r.Takes ts fun _ us _ => us ≠ [] := by
  refine takes_mono h fun a us rest hspells => ?_
  obtain ⟨c, hspells, hc⟩ := hP a us rest hspells
  obtain ⟨ss, rfl⟩ | ⟨t, us, rfl, -⟩ := hspells.starts
  · exact absurd rfl (hc ss)
  · exact List.cons_ne_nil t us

theorem statement_takes_some (hm : marker.kind = .endOfInput) (n : Nat) (ts : List Token) :
    (Grammar.statement n marker ts).Takes ts fun _ us _ => us ≠ [] := by
  refine takes_some_clause ((statementSound hm n).statement ts) fun s us rest hread => ?_
  obtain ⟨edge, hspells, -⟩ := hread
  exact ⟨_, hspells, fun ss h => by cases h⟩

theorem block_takes_some (hm : marker.kind = .endOfInput) (n : Nat) (ts : List Token) :
    (Grammar.block n marker ts).Takes ts fun _ us _ => us ≠ [] :=
  takes_some_clause ((statementSound hm n).block ts) fun _ _ _ hspells =>
    ⟨_, hspells, fun ss h => by cases h⟩

namespace StatementPrompts

theorem statement_succ (hm : marker.kind = .endOfInput) (ih : StatementPrompts marker n)
    (ts : List Token) : Prompt Closes Grammar.statement marker (n + 1) ts := by
  have hne : ¬ Closes .semicolon := by rintro (h | h) <;> cases h
  refine prompt_succ Grammar.statement.eq_1 Grammar.statement.eq_2 ?_
  exact prompt_then (fun _ h => h) (ih.bareStatement ts)
    (fun result rest => prompt_accept hm (by decide) hne (fun _ => prompt_pure) fun _ => rfl)
    fun result => opens_accept (fun _ h => h) hne fun _ => rfl

theorem body_succ (hm : marker.kind = .endOfInput) (ih : StatementPrompts marker n)
    (ts : List Token) : Prompt Closes Grammar.body marker (n + 1) ts := by
  have hc := completes_of_succ Grammar.body.eq_2 body_opens.completes
  refine prompt_succ Grammar.body.eq_1 Grammar.body.eq_2 ?_
  by_cases hk : (next marker ts).kind = .leftBrace
  · refine prompt_peek_same (fun m => if_pos hk) ?_ hc ((ih.block ts).anti fun _ _ => trivial)
    exact block_takes_some hm n ts
  · refine prompt_peek_same (fun m => if_neg hk) ?_ hc (prompt_map (ih.statement ts))
    refine takes_bind (statement_takes_some hm n ts) fun s us rest hne => ?_
    exact takes_pure (by simpa using hne)

theorem block_succ (hm : marker.kind = .endOfInput) (ih : StatementPrompts marker n)
    (ts : List Token) : Prompt (fun _ => True) Grammar.block marker (n + 1) ts := by
  refine prompt_succ Grammar.block.eq_1 Grammar.block.eq_2 ?_
  refine prompt_expect hm (by decide) (fun _ => ?_) fun _ _ => ?_
  · exact prompt_closed hm (by decide) (ih.statements .rightBrace (.inl rfl) _)
      (fun _ _ _ _ => prompt_pure) fun _ _ _ => completes_pure
  · exact completes_bind (statements_opens rfl (.inl rfl)).completes
      fun _ => opens_expect (Token.floating_kind .rightBrace "") completes_pure

theorem statements_succ (hm : marker.kind = .endOfInput) (ih : StatementPrompts marker n)
    (stop : Kind) (hstop : Closes stop) (ts : List Token) :
    Prompt (· = stop) (fun n => Grammar.statements n stop) marker (n + 1) ts := by
  have hsucc : ∀ n, Grammar.statements (n + 1) stop = _ := fun n => Grammar.statements.eq_2 stop n
  have hc := completes_of_succ hsucc (statements_opens rfl hstop).completes
  refine prompt_succ (by rw [Grammar.statements]) hsucc ?_
  by_cases hk : (next marker ts).kind = stop ∨ (next marker ts).kind = .endOfInput
  · refine prompt_peek_return (a := []) fun m t ht => if_pos ?_
    rcases ht with rfl | ht
    · exact hk
    · exact .inl ht
  · have hothers (first : Stmt) (rest : List Token) : Prompt (· = stop) (fun n => do
        let others ← Grammar.statements n stop
        return first :: others) marker n rest := prompt_map (ih.statements stop hstop rest)
    refine prompt_peek_same (fun m => if_neg hk) ?_ hc
      (prompt_then (fun _ h => h ▸ hstop) (ih.statement ts) hothers fun first => ?_)
    · refine takes_bind (statement_takes_some hm n ts) fun first us rest hne => ?_
      exact takes_mono (hothers first rest).takes fun _ vs _ _ => by simp [hne]
    · exact opens_bind (statements_opens hstop hstop) fun _ => opens_pure fun _ h => h

theorem functionBody_completes (name : String) (params : List String) :
    Completes Closes (fun n => do
      let statements ← Grammar.block n
      return Stmt.function name params statements) [] :=
  completes_bind block_completes fun _ => opens_pure fun _ _ => trivial

/-- Behind the opening parenthesis of a function, its closing one and a body are enough. -/
theorem signature_completes (name : String) :
    Completes Closes (fun n => do
      let params ← parameters n
      let _ ← expect .rightParen
      let statements ← Grammar.block n
      return Stmt.function name params statements) [] :=
  completes_bind (parameters_opens fun _ h => h).completes fun params =>
    opens_expect (Token.floating_kind .rightParen "") (functionBody_completes name params)

/-- Behind the name of a constant, a value is enough, whatever is said without one. -/
theorem initializer_completes (name : String) (e : SyntaxError) :
    Completes Closes (fun n => do
      if ← accept .equals then
        let init ← Grammar.expression n
        return Stmt.declare .constant name (some init)
      else fail e) [] :=
  completes_accept_token (Token.floating_kind .equals "")
    (completes_bind expression_completes fun _ => opens_pure fun _ => Closes.stops)

/-- A constant without its initializer is the only phrase that fails because of a token behind
others it has taken, and for which it blames those. -/
theorem constant_prompt {k name : Token} {rest : List Token} (hk : k.kind = .constKeyword)
    (hname : name.kind = .identifier) (hne : (next marker rest).kind ≠ .equals) :
    Prompt Closes (fun n => Grammar.bareStatement (n + 1)) marker n (k :: name :: rest) := by
  have hrun (m : Nat) (marker' : Token) (rest' : List Token) :
      Grammar.bareStatement (m + 1) marker' (k :: name :: rest') = (do
        if ← accept .equals then
          let init ← Grammar.expression m
          return .declare .constant name.text (some init)
        else fail ⟨.missingInitializer name.text, k.span.merge name.span⟩ : Reader Stmt)
          marker' rest' := by
    rw [Grammar.bareStatement]
    simp only [bind_apply, peek, take, expect, next, hk, hname, if_true, List.tail_cons]
  have hat : SyntaxError.At _ ([] ++ [k, name]) (next marker rest) :=
    .missingInitializer hk hname hne
  refine prompt_fail (show k :: name :: rest = [k, name] ++ rest from rfl)
    (fun m marker' rest' hnext => .inr ?_) hat ?_
  · show Grammar.bareStatement (m + 1) marker' (k :: name :: rest') = _
    rw [hrun, bind_apply, accept, hnext, if_neg hne]
    rfl
  · obtain ⟨more, s, hmore⟩ := initializer_completes name.text _
    refine ⟨more, s, fun marker' rest' hrest m => ?_⟩
    show (Grammar.bareStatement (m + 1) marker' (k :: name :: _)).Yields _ _
    rw [hrun]
    exact hmore marker' rest' hrest m

theorem bareStatement_succ (hm : marker.kind = .endOfInput) (ih : StatementPrompts marker n)
    (ts : List Token) : Prompt Closes Grammar.bareStatement marker (n + 1) ts := by
  have hc := completes_of_succ Grammar.bareStatement.eq_2 bareStatement_completes
  have hexpression (ts : List Token) : Prompt Closes Grammar.expression marker n ts :=
    ((prompts hm n).expression ts).anti fun _ => Closes.stops
  have hequals : ¬ Closes .equals := by rintro (h | h) <;> cases h
  have helse : ¬ Closes .elseKeyword := by rintro (h | h) <;> cases h
  -- The declaration is to blame only if both of its tokens are there.
  by_cases hbad : (next marker ts).kind = .constKeyword ∧
      (next marker ts.tail).kind = .identifier ∧ (next marker ts.tail.tail).kind ≠ .equals
  · obtain ⟨hk, hname, hne⟩ := hbad
    have hts : ts = next marker ts :: ts.tail := eq_next_cons hm (by rw [hk]; decide)
    have htail : ts.tail = next marker ts.tail :: ts.tail.tail :=
      eq_next_cons hm (by rw [hname]; decide)
    rw [hts, htail]
    exact prompt_succ Grammar.bareStatement.eq_1 (fun _ => rfl) (constant_prompt hk hname hne)
  -- Elsewhere the token that is to blame stands next when it is looked at.
  refine prompt_succ Grammar.bareStatement.eq_1 Grammar.bareStatement.eq_2 ?_
  cases hk : (next marker ts).kind with
  | letKeyword =>
    refine prompt_peek_take hm (by rw [hk]; decide) (fun m => by rw [hk]) ?_
    exact prompt_expect hm (by decide)
      (fun _ => prompt_accept hm (by decide) hequals (fun rest => prompt_map (hexpression rest))
        fun _ => rfl)
      fun _ _ => completes_accept hequals fun _ => rfl
  | constKeyword =>
    refine prompt_peek_take hm (by rw [hk]; decide) (fun m => by rw [hk]) ?_
    refine prompt_expect hm (by decide) (fun hname => ?_) fun _ _ =>
      initializer_completes _ _
    have heq : (next marker ts.tail.tail).kind = .equals :=
      Decidable.byContradiction fun hne => hbad ⟨hk, hname, hne⟩
    exact prompt_accept_token hm (by decide) heq (prompt_map (hexpression _))
  | functionKeyword =>
    refine prompt_peek_take hm (by rw [hk]; decide) (fun m => by rw [hk]) ?_
    simp only [name_bind]
    refine prompt_expect hm (by decide) (fun _ => ?_) fun name _ =>
      (opens_expect (Token.floating_kind .leftParen "") (signature_completes name.text)).completes
    refine prompt_expect hm (by decide) (fun _ => ?_) fun _ _ => signature_completes _
    exact prompt_closed hm (by decide) (parameters_prompt hm n _)
      (fun params _ rest _ => prompt_map ((ih.block rest).anti fun _ _ => trivial))
      fun params _ _ => functionBody_completes _ params
  | ifKeyword =>
    refine prompt_peek_take hm (by rw [hk]; decide) (fun m => by rw [hk]) ?_
    refine prompt_then (fun _ => Closes.stops) ((prompts hm n).expression ts.tail)
      (fun condition rest => ?_) fun condition => ?_
    · exact prompt_then (fun _ h => h) (ih.body rest)
        (fun thenBody rest => prompt_accept hm (by decide) helse
          (fun rest => prompt_map (ih.body rest)) fun _ => rfl)
        fun thenBody => opens_accept (fun _ h => h) helse fun _ => rfl
    · exact opens_bind body_opens fun thenBody =>
        opens_accept (fun _ h => h) helse fun _ => rfl
  | whileKeyword =>
    refine prompt_peek_take hm (by rw [hk]; decide) (fun m => by rw [hk]) ?_
    exact prompt_then (fun _ => Closes.stops) ((prompts hm n).expression ts.tail)
      (fun condition rest => prompt_map (ih.body rest))
      fun condition => opens_bind body_opens fun _ => opens_pure fun _ h => h
  | importKeyword =>
    refine prompt_peek_take hm (by rw [hk]; decide) (fun m => by rw [hk]) ?_
    exact prompt_expect hm (by decide) (fun _ => prompt_pure) fun _ _ => completes_pure
  | _ =>
    refine prompt_peek_same (fun m => by rw [hk]) ?_ hc (prompt_map (hexpression ts))
    exact takes_bind (takes_some ((sound hm n).expression ts)) fun e us rest hne =>
      takes_pure (by simpa using hne)

end StatementPrompts

/-- With any bound, the readers of statements are prompt. -/
theorem statementPrompts (hm : marker.kind = .endOfInput) (n : Nat) :
    StatementPrompts marker n := by
  induction n with
  | zero => constructor <;> intros <;> exact prompt_exhausted (by rfl)
  | succ n ih =>
    exact
      { statement := ih.statement_succ hm
        bareStatement := ih.bareStatement_succ hm
        body := ih.body_succ hm
        block := ih.block_succ hm
        statements := ih.statements_succ hm }

end Grammar

/-! ## End markers -/

namespace Token

variable {tokens before behind : List Token} {t : Token}

/-- The tokens with an end marker behind them, unless the last one is an end marker. -/
def marked (tokens : List Token) : List Token :=
  match tokens.getLast? with
  | none => [.endOfInput 0]
  | some t => if t.kind = .endOfInput then tokens else tokens ++ [.endOfInput t.span.stop]

theorem marked_cons_cons (t u : Token) (ts : List Token) :
    marked (t :: u :: ts) = t :: marked (u :: ts) := by
  rw [marked, List.getLast?_cons_cons, marked, List.getLast?_cons]
  dsimp only
  by_cases h : (ts.getLast?.getD u).kind = .endOfInput
  · rw [if_pos h, if_pos h]
  · rw [if_neg h, if_neg h, List.cons_append]

/-- Among the marked tokens, those that are read stand in front of their marker. -/
theorem marked_eq (tokens : List Token) :
    ∃ behind, marked tokens = (splitAtEnd tokens).1 ++ (splitAtEnd tokens).2 :: behind := by
  fun_induction splitAtEnd tokens with
  | case1 => exact ⟨[], rfl⟩
  | case2 t h => exact ⟨[], by simp [marked, h]⟩
  | case3 t h => exact ⟨[], by simp [marked, h]⟩
  | case4 t u ts h => exact ⟨_, marked_cons_cons t u ts⟩
  | case5 t u ts h tokens marker hs ih =>
    obtain ⟨behind, ih⟩ := ih
    rw [hs] at ih
    exact ⟨behind, by rw [marked_cons_cons, ih, List.cons_append]⟩

theorem take_marked {k : Nat} (h : k ≤ tokens.length) :
    (marked tokens).take k = tokens.take k := by
  rw [marked]
  cases hl : tokens.getLast? with
  | none =>
    obtain rfl := List.getLast?_eq_none_iff.1 hl
    obtain rfl : k = 0 := Nat.le_zero.1 h
    rfl
  | some t =>
    dsimp only
    split
    · rfl
    · exact List.take_append_of_le_length h

/-- What stands in front of a marked token, and holds no end marker, is read in front of it. -/
theorem splitAtEnd_of_marked (h : marked tokens = before ++ t :: behind)
    (hne : ∀ u ∈ before, u.kind ≠ .endOfInput) :
    ∃ rest, (splitAtEnd tokens).1 = before ++ rest ∧
      Reader.next (splitAtEnd tokens).2 rest = t := by
  obtain ⟨behind', h'⟩ := marked_eq tokens
  have hm := splitAtEnd_marker tokens
  generalize splitAtEnd tokens = split at h' hm ⊢
  obtain ⟨ahead, marker⟩ := split
  rw [h] at h'
  rcases List.append_eq_append_iff.1 h' with ⟨rest, hahead, hrest⟩ | ⟨rest, hbefore, hrest⟩
  · refine ⟨rest, hahead, ?_⟩
    cases rest with
    | nil => exact (List.cons.inj hrest).1.symm
    | cons u rest => exact (List.cons.inj hrest).1.symm
  · cases rest with
    | nil =>
      rw [List.append_nil] at hbefore
      exact ⟨[], by rw [hbefore, List.append_nil], (List.cons.inj hrest).1⟩
    | cons u rest =>
      -- The marker would be one of the tokens before.
      obtain ⟨rfl, -⟩ := List.cons.inj hrest
      exact absurd hm (hne marker (by simp [hbefore]))

end Token

/-! ## Programs -/

open Reader

/-- A list of tokens with which the readers are done holds no end marker. -/
theorem Program.ofTokens_of_yields {ts : List Token} {program : Program}
    (h : ∀ marker, marker.kind = .endOfInput →
      ∀ n, (Grammar.statements n .endOfInput marker ts).Yields program []) :
    Program.ofTokens ts = .ok program := by
  have hm : (Token.endOfInput 0).kind = .endOfInput := rfl
  have hne : ∀ t ∈ ts, t.kind ≠ .endOfInput := by
    have hdepth := (Grammar.statementAdequate hm (depthFor ts.length)).statements ts .endOfInput
      (by unfold depthFor; omega)
    have hsound := (Grammar.statementSound hm (depthFor ts.length)).statements .endOfInput ts
    rcases h _ hm (depthFor ts.length) with hr | hr
    · rw [hr] at hdepth
      exact hdepth.elim
    · rw [hr] at hsound
      obtain ⟨used, hused, hspells, -⟩ := hsound
      rw [hused, List.append_nil]
      exact hspells.ne_end
  rw [← List.append_nil ts]
  exact ofTokens_append hne (by simp) h

theorem Program.ofTokens_of_refuses {tokens : List Token} {e : SyntaxError}
    (h : (Grammar.statements (depthFor (Token.splitAtEnd tokens).1.length) .endOfInput
      (Token.splitAtEnd tokens).2 (Token.splitAtEnd tokens).1).Refuses e) :
    Program.ofTokens tokens = .error e := by
  have hread := h.resolve_left (ofTokens_reading tokens)
  rw [Program.ofTokens]
  dsimp only
  rw [hread]

/-- The error is decided by the token at an index. -/
structure FirstOffence (tokens : List Token) (e : SyntaxError) (i : Nat) : Prop where
  /-- The error names that token. -/
  named : ∃ t, (Token.marked tokens)[i]? = some t ∧ e.At ((Token.marked tokens).take i) t
  /-- Whatever stands behind that token, the error is the same. -/
  same : ∀ other, (Token.marked other).take (i + 1) = (Token.marked tokens).take (i + 1) →
    Program.ofTokens other = .error e
  /-- The tokens before it can be completed to a program. -/
  completes : ∃ more program,
    Program.ofTokens ((Token.marked tokens).take i ++ more) = .ok program

namespace FirstOffence

variable {tokens : List Token} {e : SyntaxError} {i j : Nat}

theorem not_lt (hi : FirstOffence tokens e i) (hj : FirstOffence tokens e j) : ¬ i < j := by
  intro hlt
  obtain ⟨t, ht, -⟩ := hj.named
  obtain ⟨hlength, -⟩ := List.getElem?_eq_some_iff.1 ht
  obtain ⟨more, program, hok⟩ := hj.completes
  have hfail := hi.same ((Token.marked tokens).take j ++ more) (by
    rw [Token.take_marked (by simp; omega), List.take_append_of_le_length (by simp; omega),
      List.take_take, Nat.min_eq_left hlt])
  rw [hok] at hfail
  cases hfail

/-- One token only can decide the error. -/
theorem unique (hi : FirstOffence tokens e i) (hj : FirstOffence tokens e j) : j = i :=
  Nat.le_antisymm (Nat.not_lt.1 (hi.not_lt hj)) (Nat.not_lt.1 (hj.not_lt hi))

end FirstOffence

/-- Where the reading of a program fails: at the marked token behind those before it. -/
theorem Program.exists_before {tokens : List Token} {e : SyntaxError}
    (h : Program.ofTokens tokens = .error e) :
    ∃ before t behind, Token.marked tokens = before ++ t :: behind ∧
      (∀ u ∈ before, u.kind ≠ .endOfInput) ∧ e.At before t ∧
      (∀ n marker rest, next marker rest = t →
        (Grammar.statements n .endOfInput marker (before ++ rest)).Refuses e) ∧
      Completes (· = .endOfInput) (fun n => Grammar.statements n .endOfInput) before := by
  have hprompt := (Grammar.statementPrompts (Token.splitAtEnd_marker tokens)
    (depthFor (Token.splitAtEnd tokens).1.length)).statements .endOfInput (.inr rfl)
      (Token.splitAtEnd tokens).1
  have hread := ofTokens_reading tokens
  have hne : ∀ t ∈ (Token.splitAtEnd tokens).1, t.kind ≠ .endOfInput :=
    fun t => Token.kind_ne_of_mem_splitAtEnd
  obtain ⟨behind, hmarked⟩ := Token.marked_eq tokens
  rw [Program.ofTokens] at h
  rw [Prompt] at hprompt
  generalize Token.splitAtEnd tokens = split at h hprompt hread hne hmarked
  obtain ⟨ahead, marker⟩ := split
  dsimp only at h hprompt hread hne hmarked
  cases hr : Grammar.statements (depthFor ahead.length) .endOfInput marker ahead with
  | done program rest =>
    rw [hr] at h
    cases h
  | exhausted => exact absurd hr hread
  | failed error =>
    rw [hr] at h hprompt
    cases h
    obtain ⟨before, rest, rfl, hat, hsame, hcompletes⟩ := hprompt
    have hnext : ∃ behind', Token.marked tokens = before ++ next marker rest :: behind' := by
      rw [hmarked, List.append_assoc]
      cases rest with
      | nil => exact ⟨behind, rfl⟩
      | cons t rest => exact ⟨rest ++ marker :: behind, rfl⟩
    obtain ⟨behind', hnext⟩ := hnext
    exact ⟨before, next marker rest, behind', hnext, fun u hu => hne u (by simp [hu]), hat,
      hsame, hcompletes⟩

/-- A list of tokens that is no program is none because of a single token of it, or of the end
marker behind it: the error names this token, no token behind it matters, and the tokens before it
can be completed to a program. -/
theorem Program.ofTokens_error {tokens : List Token} {e : SyntaxError}
    (h : Program.ofTokens tokens = .error e) :
    ∃ i, FirstOffence tokens e i ∧ ∀ j, FirstOffence tokens e j → j = i := by
  obtain ⟨before, t, behind, hmarked, hne, hat, hsame, more, program, hmore⟩ := exists_before h
  have htake : (Token.marked tokens).take before.length = before := by simp [hmarked]
  have htake' : (Token.marked tokens).take (before.length + 1) = before ++ [t] := by
    rw [hmarked, List.take_length_add_append]
    rfl
  have hfirst : FirstOffence tokens e before.length :=
    { named := ⟨t, by simp [hmarked], by rw [htake]; exact hat⟩
      same := fun other hother => by
        -- The other list has the same token next, or as its marker.
        have hsplit := List.take_append_drop (before.length + 1) (Token.marked other)
        rw [hother, htake', List.append_assoc] at hsplit
        obtain ⟨rest, hahead, hnext⟩ := Token.splitAtEnd_of_marked hsplit.symm hne
        apply ofTokens_of_refuses
        rw [hahead]
        exact hsame _ _ rest hnext
      completes := ⟨more, program, by
        rw [htake, ← List.append_nil more]
        exact ofTokens_of_yields fun marker hm n => hmore marker [] hm n⟩ }
  exact ⟨before.length, hfirst, fun j hj => hfirst.unique hj⟩

/-- In `const x + a` the error is about the declaration, and the token that decides it is `+`. -/
theorem Program.ofTokens_error_constant :
    let tokens : List Token := [⟨.constKeyword, "const", ⟨0, 5⟩⟩, ⟨.identifier, "x", ⟨6, 7⟩⟩,
      ⟨.plus, "+", ⟨8, 9⟩⟩, ⟨.identifier, "a", ⟨10, 11⟩⟩]
    let e : SyntaxError := ⟨.missingInitializer "x", ⟨0, 7⟩⟩
    Program.ofTokens tokens = .error e ∧
      ∃ i, FirstOffence tokens e i ∧ ∀ j, FirstOffence tokens e j → j = i :=
  ⟨rfl, Program.ofTokens_error rfl⟩

end DialectScript
