import DialectScript.Program.Grammar

/-!
# The depth of reading

Reading a phrase takes at least one token, and between two tokens the readers call each other at
most sixteen deep. So a bound of sixteen for each token, and sixteen more, is never exhausted.

* `Reading.Leaves` — a reading ends within its bound and leaves fewer than `m` tokens.
* `Adequate`, `StatementAdequate` — every reader with enough depth leaves fewer tokens than it
  was given, or at least no more.
* `Program.ofTokens_reading` — **reading a program never exhausts its bound**.
-/

namespace DialectScript

/-- The reading ends within its bound, and if it succeeds it leaves fewer than `m` tokens. -/
def Reading.Leaves {α : Type} (r : Reading α) (m : Nat) : Prop :=
  match r with
  | .done _ rest => rest.length < m
  | .failed _ => True
  | .exhausted => False

theorem Reading.Leaves.mono {α : Type} {r : Reading α} {m m' : Nat} (h : r.Leaves m)
    (hm : m ≤ m') : r.Leaves m' := by
  cases r with
  | done a rest => exact Nat.lt_of_lt_of_le h hm
  | failed error => trivial
  | exhausted => exact h

/-! ## Single steps -/

namespace Reader

variable {α β : Type} {marker : Token} {ts : List Token}

theorem bind_apply (p : Reader α) (f : α → Reader β) (marker : Token) (ts : List Token) :
    (p >>= f) marker ts =
      match p marker ts with
      | .done a rest => f a marker rest
      | .failed error => .failed error
      | .exhausted => .exhausted := rfl

/-- A token of a kind other than the marker's is a token of the list. -/
theorem tail_length {kind : Kind} (hm : marker.kind = .endOfInput) (hk : kind ≠ .endOfInput)
    (h : (next marker ts).kind = kind) : ts.tail.length + 1 = ts.length := by
  cases ts with
  | nil => exact absurd (h.symm.trans hm) hk
  | cons t ts => simp

theorem leaves_bind {p : Reader α} {f : α → Reader β} {m m' : Nat}
    (hp : (p marker ts).Leaves m)
    (hf : ∀ a rest, rest.length < m → (f a marker rest).Leaves m') :
    ((p >>= f) marker ts).Leaves m' := by
  rw [bind_apply]
  cases h : p marker ts with
  | done a rest =>
    rw [h] at hp
    exact hf a rest hp
  | failed error => trivial
  | exhausted =>
    rw [h] at hp
    exact hp.elim

theorem leaves_pure {a : α} {m : Nat} (h : ts.length < m) :
    ((pure a : Reader α) marker ts).Leaves m := h

theorem leaves_fail {error : SyntaxError} {m : Nat} :
    ((fail error : Reader α) marker ts).Leaves m := trivial

theorem leaves_peek {f : Token → Reader α} {m : Nat}
    (h : (f (next marker ts) marker ts).Leaves m) : ((peek >>= f) marker ts).Leaves m := h

theorem leaves_take {f : Token → Reader α} {m : Nat}
    (h : (f (next marker ts) marker ts.tail).Leaves m) : ((take >>= f) marker ts).Leaves m := h

theorem leaves_accept {kind : Kind} {f : Bool → Reader α} {m : Nat}
    (ht : (next marker ts).kind = kind → (f true marker ts.tail).Leaves m)
    (hf : (f false marker ts).Leaves m) : ((accept kind >>= f) marker ts).Leaves m := by
  rw [bind_apply, accept]
  by_cases h : (next marker ts).kind = kind
  · rw [if_pos h]
    exact ht h
  · rw [if_neg h]
    exact hf

theorem leaves_expect {kind : Kind} {f : Token → Reader α} {m : Nat}
    (ht : (next marker ts).kind = kind → (f (next marker ts) marker ts.tail).Leaves m) :
    ((expect kind >>= f) marker ts).Leaves m := by
  rw [bind_apply, expect]
  by_cases h : (next marker ts).kind = kind
  · rw [if_pos h]
    exact ht h
  · rw [if_neg h]
    trivial

theorem leaves_name {f : String → Reader α} {m : Nat}
    (ht : (next marker ts).kind = .identifier →
      (f (next marker ts).text marker ts.tail).Leaves m) :
    ((name >>= f) marker ts).Leaves m := by
  rw [bind_apply, name, bind_apply, expect]
  by_cases h : (next marker ts).kind = .identifier
  · rw [if_pos h]
    exact ht h
  · rw [if_neg h]
    trivial

end Reader

/-! ## Expressions -/

namespace Grammar

open Reader

variable {marker : Token}

theorem parameters_leaves (hm : marker.kind = .endOfInput) (n : Nat) (ts : List Token)
    (h : ts.length < n) : (parameters n marker ts).Leaves (ts.length + 1) := by
  induction n generalizing ts with
  | zero => omega
  | succ n ih =>
    rw [parameters]
    apply leaves_peek
    by_cases hclose : (next marker ts).kind = .rightParen
    · rw [if_pos hclose]
      exact leaves_pure (by omega)
    · rw [if_neg hclose]
      by_cases hk : (next marker ts).kind = .identifier
      · rw [if_pos hk]
        have ht := tail_length hm (by decide) hk
        apply leaves_take
        apply leaves_accept
        · intro hc
          have hc' := tail_length hm (by decide) hc
          refine leaves_bind (ih ts.tail.tail (by omega)) fun names rest hr => ?_
          exact leaves_pure (by omega)
        · exact leaves_pure (by omega)
      · rw [if_neg hk]
        exact leaves_fail

/-- With this depth, every reader of expressions ends and takes what it should. -/
structure Adequate (marker : Token) (n : Nat) : Prop where
  expression : ∀ ts, 16 * ts.length + 10 ≤ n → (expression n marker ts).Leaves ts.length
  unassigned : ∀ ts, 16 * ts.length + 9 ≤ n → (unassigned n marker ts).Leaves ts.length
  properties : ∀ ts, 16 * ts.length + 2 ≤ n → (properties n marker ts).Leaves (ts.length + 1)
  property : ∀ ts, 16 * ts.length + 1 ≤ n → (property n marker ts).Leaves ts.length
  binary : ∀ ts levels, levels.length ≤ 5 → (∀ level ∈ levels, level .endOfInput = none) →
    16 * ts.length + 3 + levels.length ≤ n → (binary n levels marker ts).Leaves ts.length
  chain : ∀ ts level tighter left, tighter.length ≤ 4 → level .endOfInput = none →
    (∀ level ∈ tighter, level .endOfInput = none) → 16 * ts.length + 1 ≤ n →
    (chain n level tighter left marker ts).Leaves (ts.length + 1)
  suffixed : ∀ ts, 16 * ts.length + 2 ≤ n → (suffixed n marker ts).Leaves ts.length
  suffixes : ∀ ts base, 16 * ts.length + 1 ≤ n →
    (suffixes n base marker ts).Leaves (ts.length + 1)
  primary : ∀ ts, 16 * ts.length + 1 ≤ n → (primary n marker ts).Leaves ts.length
  expressions : ∀ ts close, 16 * ts.length + 11 ≤ n →
    (expressions n close marker ts).Leaves (ts.length + 1)

theorem levels_endOfInput : ∀ level ∈ Operator.levels, level .endOfInput = none := by
  simp [Operator.levels]

namespace Adequate

variable {n : Nat}

theorem expression_succ (hm : marker.kind = .endOfInput) (ih : Adequate marker n)
    (ts : List Token) (h : 16 * ts.length + 10 ≤ n + 1) :
    (Grammar.expression (n + 1) marker ts).Leaves ts.length := by
  rw [Grammar.expression]
  refine leaves_bind (ih.unassigned ts (by omega)) fun target rest hr => ?_
  apply leaves_accept
  · intro hk
    have ht := tail_length hm (by decide) hk
    refine leaves_bind (ih.expression rest.tail (by omega)) fun value rest' hr' => ?_
    exact leaves_pure (by omega)
  · exact leaves_pure hr

theorem unassigned_succ (hm : marker.kind = .endOfInput) (ih : Adequate marker n)
    (ts : List Token) (h : 16 * ts.length + 9 ≤ n + 1) :
    (Grammar.unassigned (n + 1) marker ts).Leaves ts.length := by
  rw [Grammar.unassigned]
  apply leaves_accept
  · intro hk
    have ht := tail_length hm (by decide) hk
    refine leaves_bind (ih.properties ts.tail (by omega)) fun entries rest hr => ?_
    apply leaves_expect
    intro hk'
    have ht' := tail_length hm (by decide) hk'
    exact leaves_pure (by omega)
  · exact ih.binary ts Operator.levels (by decide) levels_endOfInput
      (by simp [Operator.levels]; omega)

theorem properties_succ (hm : marker.kind = .endOfInput) (ih : Adequate marker n)
    (ts : List Token) (h : 16 * ts.length + 2 ≤ n + 1) :
    (Grammar.properties (n + 1) marker ts).Leaves (ts.length + 1) := by
  rw [Grammar.properties]
  apply leaves_peek
  by_cases hclose : (next marker ts).kind = .rightBrace
  · rw [if_pos hclose]
    exact leaves_pure (by omega)
  · rw [if_neg hclose]
    refine leaves_bind (ih.property ts (by omega)) fun entry rest hr => ?_
    apply leaves_accept
    · intro hk
      have ht := tail_length hm (by decide) hk
      refine leaves_bind (ih.properties rest.tail (by omega)) fun entries rest' hr' => ?_
      exact leaves_pure (by omega)
    · exact leaves_pure (by omega)

theorem property_succ (hm : marker.kind = .endOfInput) (ih : Adequate marker n)
    (ts : List Token) (h : 16 * ts.length + 1 ≤ n + 1) :
    (Grammar.property (n + 1) marker ts).Leaves ts.length := by
  rw [Grammar.property]
  apply leaves_name
  intro hk
  have ht := tail_length hm (by decide) hk
  apply leaves_accept
  · intro hk'
    have ht' := tail_length hm (by decide) hk'
    refine leaves_bind (ih.expression ts.tail.tail (by omega)) fun value rest hr => ?_
    exact leaves_pure (by omega)
  · exact leaves_pure (by omega)

theorem binary_succ (ih : Adequate marker n) (ts : List Token) (levels : List Operator.Level)
    (hl : levels.length ≤ 5) (hlevels : ∀ level ∈ levels, level .endOfInput = none)
    (h : 16 * ts.length + 3 + levels.length ≤ n + 1) :
    (Grammar.binary (n + 1) levels marker ts).Leaves ts.length := by
  cases levels with
  | nil =>
    rw [Grammar.binary]
    exact ih.suffixed ts (by simp at h; omega)
  | cons level tighter =>
    rw [Grammar.binary]
    simp only [List.length_cons] at hl h
    simp only [List.mem_cons, forall_eq_or_imp] at hlevels
    refine leaves_bind (ih.binary ts tighter (by omega) hlevels.2 (by omega))
      fun left rest hr => ?_
    exact (ih.chain rest level tighter left (by omega) hlevels.1 hlevels.2 (by omega)).mono
      (by omega)

theorem chain_succ (hm : marker.kind = .endOfInput) (ih : Adequate marker n) (ts : List Token)
    (level : Operator.Level) (tighter : List Operator.Level) (left : Expr)
    (hl : tighter.length ≤ 4) (hlevel : level .endOfInput = none)
    (hlevels : ∀ level ∈ tighter, level .endOfInput = none) (h : 16 * ts.length + 1 ≤ n + 1) :
    (Grammar.chain (n + 1) level tighter left marker ts).Leaves (ts.length + 1) := by
  rw [Grammar.chain]
  apply leaves_peek
  cases hop : level (next marker ts).kind with
  | none => exact leaves_pure (by omega)
  | some operator =>
    have hk : (next marker ts).kind ≠ .endOfInput := by
      intro hk
      rw [hk, hlevel] at hop
      cases hop
    have ht := tail_length hm hk rfl
    apply leaves_take
    refine leaves_bind (ih.binary ts.tail tighter (by omega) hlevels (by omega))
      fun right rest hr => ?_
    exact (ih.chain rest level tighter _ hl hlevel hlevels (by omega)).mono (by omega)

theorem suffixed_succ (ih : Adequate marker n) (ts : List Token)
    (h : 16 * ts.length + 2 ≤ n + 1) :
    (Grammar.suffixed (n + 1) marker ts).Leaves ts.length := by
  rw [Grammar.suffixed]
  refine leaves_bind (ih.primary ts (by omega)) fun base rest hr => ?_
  exact (ih.suffixes rest base (by omega)).mono (by omega)

theorem suffixes_succ (hm : marker.kind = .endOfInput) (ih : Adequate marker n)
    (ts : List Token) (base : Expr) (h : 16 * ts.length + 1 ≤ n + 1) :
    (Grammar.suffixes (n + 1) base marker ts).Leaves (ts.length + 1) := by
  rw [Grammar.suffixes]
  apply leaves_peek
  cases hk : (next marker ts).kind with
  | dot =>
    have ht := tail_length hm (by decide) hk
    apply leaves_take
    apply leaves_name
    intro hk'
    have ht' := tail_length hm (by decide) hk'
    exact (ih.suffixes _ _ (by omega)).mono (by omega)
  | leftBracket =>
    have ht := tail_length hm (by decide) hk
    apply leaves_take
    refine leaves_bind (ih.expression ts.tail (by omega)) fun index rest hr => ?_
    apply leaves_expect
    intro hk'
    have ht' := tail_length hm (by decide) hk'
    exact (ih.suffixes _ _ (by omega)).mono (by omega)
  | leftParen =>
    have ht := tail_length hm (by decide) hk
    apply leaves_take
    refine leaves_bind (ih.expressions ts.tail .rightParen (by omega)) fun args rest hr => ?_
    apply leaves_expect
    intro hk'
    have ht' := tail_length hm (by decide) hk'
    exact (ih.suffixes _ _ (by omega)).mono (by omega)
  | _ => exact leaves_pure (by omega)

theorem primary_succ (hm : marker.kind = .endOfInput) (ih : Adequate marker n)
    (ts : List Token) (h : 16 * ts.length + 1 ≤ n + 1) :
    (Grammar.primary (n + 1) marker ts).Leaves ts.length := by
  rw [Grammar.primary]
  apply leaves_peek
  cases hk : (next marker ts).kind with
  | identifier =>
    have ht := tail_length hm (by decide) hk
    apply leaves_take
    exact leaves_pure (by omega)
  | number =>
    have ht := tail_length hm (by decide) hk
    apply leaves_take
    cases Numeral.value? (next marker ts).text with
    | none => exact leaves_fail
    | some value => exact leaves_pure (by omega)
  | string =>
    have ht := tail_length hm (by decide) hk
    apply leaves_take
    exact leaves_pure (by omega)
  | leftParen =>
    have ht := tail_length hm (by decide) hk
    apply leaves_take
    refine leaves_bind (ih.expression ts.tail (by omega)) fun inner rest hr => ?_
    apply leaves_expect
    intro hk'
    have ht' := tail_length hm (by decide) hk'
    exact leaves_pure (by omega)
  | leftBracket =>
    have ht := tail_length hm (by decide) hk
    apply leaves_take
    refine leaves_bind (ih.expressions ts.tail .rightBracket (by omega)) fun elems rest hr => ?_
    apply leaves_expect
    intro hk'
    have ht' := tail_length hm (by decide) hk'
    exact leaves_pure (by omega)
  | _ => exact leaves_fail

theorem expressions_succ (hm : marker.kind = .endOfInput) (ih : Adequate marker n)
    (ts : List Token) (close : Kind) (h : 16 * ts.length + 11 ≤ n + 1) :
    (Grammar.expressions (n + 1) close marker ts).Leaves (ts.length + 1) := by
  rw [Grammar.expressions]
  apply leaves_peek
  by_cases hclose : (next marker ts).kind = close
  · rw [if_pos hclose]
    exact leaves_pure (by omega)
  · rw [if_neg hclose]
    refine leaves_bind (ih.expression ts (by omega)) fun item rest hr => ?_
    apply leaves_accept
    · intro hk
      have ht := tail_length hm (by decide) hk
      refine leaves_bind (ih.expressions rest.tail close (by omega)) fun items rest' hr' => ?_
      exact leaves_pure (by omega)
    · exact leaves_pure (by omega)

end Adequate

/-- Every depth is adequate for the token lists it is meant for. -/
theorem adequate (hm : marker.kind = .endOfInput) (n : Nat) : Adequate marker n := by
  induction n with
  | zero => constructor <;> intros <;> omega
  | succ n ih =>
    exact
      { expression := ih.expression_succ hm
        unassigned := ih.unassigned_succ hm
        properties := ih.properties_succ hm
        property := ih.property_succ hm
        binary := ih.binary_succ
        chain := ih.chain_succ hm
        suffixed := ih.suffixed_succ
        suffixes := ih.suffixes_succ hm
        primary := ih.primary_succ hm
        expressions := ih.expressions_succ hm }

/-! ## Statements -/

/-- With this depth, every reader of statements ends and takes what it should. -/
structure StatementAdequate (marker : Token) (n : Nat) : Prop where
  statement : ∀ ts, 16 * ts.length + 12 ≤ n → (statement n marker ts).Leaves ts.length
  bareStatement : ∀ ts, 16 * ts.length + 11 ≤ n → (bareStatement n marker ts).Leaves ts.length
  body : ∀ ts, 16 * ts.length + 13 ≤ n → (body n marker ts).Leaves ts.length
  block : ∀ ts, 16 * ts.length + 1 ≤ n → (block n marker ts).Leaves ts.length
  statements : ∀ ts stop, 16 * ts.length + 13 ≤ n →
    (statements n stop marker ts).Leaves (ts.length + 1)

namespace StatementAdequate

variable {n : Nat}

theorem statement_succ (hm : marker.kind = .endOfInput) (ih : StatementAdequate marker n)
    (ts : List Token) (h : 16 * ts.length + 12 ≤ n + 1) :
    (Grammar.statement (n + 1) marker ts).Leaves ts.length := by
  rw [Grammar.statement]
  refine leaves_bind (ih.bareStatement ts (by omega)) fun result rest hr => ?_
  apply leaves_accept
  · intro hk
    have ht := tail_length hm (by decide) hk
    exact leaves_pure (by omega)
  · exact leaves_pure hr

theorem bareStatement_succ (hm : marker.kind = .endOfInput) (ih : StatementAdequate marker n)
    (ts : List Token) (h : 16 * ts.length + 11 ≤ n + 1) :
    (Grammar.bareStatement (n + 1) marker ts).Leaves ts.length := by
  have he := adequate hm n
  rw [Grammar.bareStatement]
  apply leaves_peek
  -- The token in front makes room for sixteen levels: more than the way down to a body uses up.
  cases hk : (next marker ts).kind with
  | letKeyword =>
    have ht := tail_length hm (by decide) hk
    apply leaves_take
    apply leaves_expect
    intro hk'
    have ht' := tail_length hm (by decide) hk'
    apply leaves_accept
    · intro hk''
      have ht'' := tail_length hm (by decide) hk''
      refine leaves_bind (he.expression _ (by omega)) fun init rest hr => ?_
      exact leaves_pure (by omega)
    · exact leaves_pure (by omega)
  | constKeyword =>
    have ht := tail_length hm (by decide) hk
    apply leaves_take
    apply leaves_expect
    intro hk'
    have ht' := tail_length hm (by decide) hk'
    apply leaves_accept
    · intro hk''
      have ht'' := tail_length hm (by decide) hk''
      refine leaves_bind (he.expression _ (by omega)) fun init rest hr => ?_
      exact leaves_pure (by omega)
    · trivial
  | functionKeyword =>
    have ht := tail_length hm (by decide) hk
    apply leaves_take
    apply leaves_name
    intro hk'
    have ht' := tail_length hm (by decide) hk'
    apply leaves_expect
    intro hk''
    have ht'' := tail_length hm (by decide) hk''
    refine leaves_bind (parameters_leaves hm n _ (by omega)) fun params rest hr => ?_
    apply leaves_expect
    intro hc
    have hc' := tail_length hm (by decide) hc
    refine leaves_bind (ih.block _ (by omega)) fun statements rest' hr' => ?_
    exact leaves_pure (by omega)
  | ifKeyword =>
    have ht := tail_length hm (by decide) hk
    apply leaves_take
    refine leaves_bind (he.expression _ (by omega)) fun condition rest hr => ?_
    refine leaves_bind (ih.body _ (by omega)) fun thenBody rest' hr' => ?_
    apply leaves_accept
    · intro hk'
      have ht' := tail_length hm (by decide) hk'
      refine leaves_bind (ih.body _ (by omega)) fun elseBody rest'' hr'' => ?_
      exact leaves_pure (by omega)
    · exact leaves_pure (by omega)
  | whileKeyword =>
    have ht := tail_length hm (by decide) hk
    apply leaves_take
    refine leaves_bind (he.expression _ (by omega)) fun condition rest hr => ?_
    refine leaves_bind (ih.body _ (by omega)) fun statements rest' hr' => ?_
    exact leaves_pure (by omega)
  | importKeyword =>
    have ht := tail_length hm (by decide) hk
    apply leaves_take
    apply leaves_expect
    intro hk'
    have ht' := tail_length hm (by decide) hk'
    exact leaves_pure (by omega)
  | _ =>
    refine leaves_bind (he.expression ts (by omega)) fun value rest hr => ?_
    exact leaves_pure hr

theorem body_succ (ih : StatementAdequate marker n) (ts : List Token)
    (h : 16 * ts.length + 13 ≤ n + 1) : (Grammar.body (n + 1) marker ts).Leaves ts.length := by
  rw [Grammar.body]
  apply leaves_peek
  by_cases hk : (next marker ts).kind = .leftBrace
  · rw [if_pos hk]
    exact ih.block ts (by omega)
  · rw [if_neg hk]
    refine leaves_bind (ih.statement ts (by omega)) fun single rest hr => ?_
    exact leaves_pure hr

theorem block_succ (hm : marker.kind = .endOfInput) (ih : StatementAdequate marker n)
    (ts : List Token) (h : 16 * ts.length + 1 ≤ n + 1) :
    (Grammar.block (n + 1) marker ts).Leaves ts.length := by
  rw [Grammar.block]
  apply leaves_expect
  intro hk
  have ht := tail_length hm (by decide) hk
  refine leaves_bind (ih.statements ts.tail .rightBrace (by omega)) fun result rest hr => ?_
  apply leaves_expect
  intro hk'
  have ht' := tail_length hm (by decide) hk'
  exact leaves_pure (by omega)

theorem statements_succ (ih : StatementAdequate marker n) (ts : List Token) (stop : Kind)
    (h : 16 * ts.length + 13 ≤ n + 1) :
    (Grammar.statements (n + 1) stop marker ts).Leaves (ts.length + 1) := by
  rw [Grammar.statements]
  apply leaves_peek
  by_cases hk : (next marker ts).kind = stop ∨ (next marker ts).kind = .endOfInput
  · rw [if_pos hk]
    exact leaves_pure (by omega)
  · rw [if_neg hk]
    refine leaves_bind (ih.statement ts (by omega)) fun first rest hr => ?_
    refine leaves_bind (ih.statements rest stop (by omega)) fun others rest' hr' => ?_
    exact leaves_pure (by omega)

end StatementAdequate

/-- Every depth is adequate for the token lists it is meant for. -/
theorem statementAdequate (hm : marker.kind = .endOfInput) (n : Nat) :
    StatementAdequate marker n := by
  induction n with
  | zero => constructor <;> intros <;> omega
  | succ n ih =>
    exact
      { statement := ih.statement_succ hm
        bareStatement := ih.bareStatement_succ hm
        body := ih.body_succ
        block := ih.block_succ hm
        statements := ih.statements_succ }

end Grammar

/-! ## Programs -/

theorem Token.splitAtEnd_marker (tokens : List Token) :
    (Token.splitAtEnd tokens).2.kind = .endOfInput := by
  fun_induction Token.splitAtEnd tokens with
  | case1 => rfl
  | case2 t h => exact h
  | case3 => rfl
  | case4 t u ts h => exact h
  | case5 t u ts h tokens marker hs ih => simpa [hs] using ih

/-- The bound that is set for a program's tokens is never exhausted. -/
theorem Program.ofTokens_reading (tokens : List Token) :
    Grammar.statements (Program.depthFor (Token.splitAtEnd tokens).1.length) .endOfInput
      (Token.splitAtEnd tokens).2 (Token.splitAtEnd tokens).1 ≠ .exhausted := by
  have h := (Grammar.statementAdequate (Token.splitAtEnd_marker tokens)
    (Program.depthFor (Token.splitAtEnd tokens).1.length)).statements
      (Token.splitAtEnd tokens).1 .endOfInput (by unfold Program.depthFor; omega)
  intro he
  rw [he] at h
  exact h

end DialectScript
