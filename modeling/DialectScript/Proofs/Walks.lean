import DialectScript.Proofs.Cursor

/-!
# Walks stay in front of the first end marker

**Theorem (`Walk.program_total`).** From any list of tokens a walk reads a program or has an error
within a bound that depends on the length of the list only, and this is the program or the error
that `Program.ofTokens` has. Every statement and every expression that is read moves the cursor on.
Every position of the cursor, when the walk fails as well, is one in the list, with no end marker
before it. What is behind the first end marker does not matter.

A walk does what the reader does with the tokens in front of the next end marker
(`Walk.Follows`): it ends alike, and the cursor faces the tokens that the reader leaves
(`Cursor.Faces`). The cursor itself would go beyond an end marker that is not the last token. But it
goes on in two ways only: from a token of a kind that the grammar asks for, which is never that of
an end marker, or from a token that the walk has looked at before (`Walk.FollowsFrom`).
-/

namespace DialectScript

open Reader (next)

/-! ## What a cursor faces -/

/-- The tokens from the cursor on are those ahead, an end marker and those behind it. -/
structure Cursor.Faces (c : Cursor) (tokens ahead : List Token) (marker : Token)
    (behind : List Token) : Prop where
  tokens_eq : c.tokens = tokens
  drop_eq : tokens.drop c.pos = ahead ++ marker :: behind
  marker_kind : marker.kind = .endOfInput

namespace Cursor.Faces

variable {c : Cursor} {tokens ahead behind : List Token} {marker : Token}

theorem drop_eq_cons (h : c.Faces tokens ahead marker behind) :
    ∃ others, tokens.drop c.pos = next marker ahead :: others ∧
      (ahead ≠ [] → others = ahead.tail ++ marker :: behind) := by
  cases ahead with
  | nil => exact ⟨behind, h.drop_eq, fun hne => absurd rfl hne⟩
  | cons t ahead => exact ⟨ahead ++ marker :: behind, h.drop_eq, fun _ => rfl⟩

/-- The cursor stands at the token that is next. -/
theorem current_eq (h : c.Faces tokens ahead marker behind) : c.current = next marker ahead := by
  obtain ⟨others, hdrop, -⟩ := h.drop_eq_cons
  have hget : tokens[c.pos]? = some (next marker ahead) := by
    rw [← List.head?_drop, hdrop, List.head?_cons]
  rw [← h.tokens_eq, List.getElem?_eq_getElem c.inside] at hget
  exact Option.some.inj hget

/-- From a token that is no end marker the cursor goes on to the next one. -/
theorem advance (h : c.Faces tokens ahead marker behind)
    (hk : (next marker ahead).kind ≠ .endOfInput) :
    c.advance.Faces tokens ahead.tail marker behind := by
  cases ahead with
  | nil => exact absurd h.marker_kind hk
  | cons t ahead =>
    have hdrop : tokens.drop (c.pos + 1) = ahead ++ marker :: behind := by
      rw [← List.tail_drop, h.drop_eq]
      rfl
    have hlt : c.pos + 1 < c.tokens.length := by
      have hlength := congrArg List.length hdrop
      rw [List.length_drop, List.length_append, List.length_cons] at hlength
      rw [h.tokens_eq]
      omega
    have hadvance : c.advance.pos = c.pos + 1 ∧ c.advance.tokens = c.tokens := by
      rw [Cursor.advance, dif_pos hlt]
      exact ⟨rfl, rfl⟩
    exact ⟨hadvance.2.trans h.tokens_eq, by rw [hadvance.1]; exact hdrop, h.marker_kind⟩

theorem length_eq (h : c.Faces tokens ahead marker behind) :
    c.pos + ahead.length + (behind.length + 1) = tokens.length := by
  have hlength := congrArg List.length h.drop_eq
  have hinside := c.inside
  rw [h.tokens_eq] at hinside
  rw [List.length_drop, List.length_append, List.length_cons] at hlength
  omega

end Cursor.Faces

/-- Every cursor has an end marker ahead. -/
theorem Cursor.exists_faces (c : Cursor) : ∃ ahead marker behind,
    c.Faces c.tokens ahead marker behind := by
  obtain ⟨t, hlast, hk⟩ := c.ends
  obtain ⟨before, htokens⟩ := List.getLast?_eq_some_iff.1 hlast
  have hinside := c.inside
  have hdrop : c.tokens.drop c.pos = before.drop c.pos ++ [t] := by
    rw [htokens, List.length_append, List.length_singleton] at hinside
    rw [htokens, List.drop_append_of_le_length (by omega)]
  exact ⟨before.drop c.pos, t, [], rfl, hdrop, hk⟩

/-! ## Following a reader -/

/-- What a reading ends with, unless its bound is exhausted. -/
def Reading.outcome? {α : Type} : Reading α → Option (Except SyntaxError α)
  | .done a _ => some (.ok a)
  | .failed e => some (.error e)
  | .exhausted => none

namespace Walk

/-- The walk ends as the reading does, and the cursor faces the tokens that the reading leaves. -/
inductive Ends {α : Type} (tokens : List Token) (marker : Token) (behind : List Token) :
    Reading α → EStateM.Result Halt Cursor α → Prop
  | done {a : α} {rest : List Token} {c : Cursor} :
      c.Faces tokens rest marker behind → Ends tokens marker behind (.done a rest) (.ok a c)
  | failed {e : SyntaxError} {rest : List Token} {c : Cursor} :
      c.Faces tokens rest marker behind →
      Ends tokens marker behind (.failed e) (.error (.failed e) c)
  | exhausted {rest : List Token} {c : Cursor} :
      c.Faces tokens rest marker behind →
      Ends tokens marker behind .exhausted (.error .exhausted c)

/-- The walk does before a list what the reader does with the tokens up to an end marker. -/
def Follows {α : Type} (w : Walk α) (p : Reader α) : Prop :=
  ∀ (c : Cursor) (tokens ahead : List Token) (marker : Token) (behind : List Token),
    c.Faces tokens ahead marker behind → Ends tokens marker behind (p marker ahead) (w c)

/-- The walk does so from the token on. -/
def FollowsFrom {α : Type} (t : Token) (w : Walk α) (p : Reader α) : Prop :=
  ∀ (c : Cursor) (tokens ahead : List Token) (marker : Token) (behind : List Token),
    c.Faces tokens ahead marker behind → next marker ahead = t →
      Ends tokens marker behind (p marker ahead) (w c)

variable {α β : Type} {w : Walk α} {p : Reader α} {kind : Kind} {t : Token}

theorem Follows.from (h : Follows w p) (t : Token) : FollowsFrom t w p :=
  fun c tokens ahead marker behind hc _ => h c tokens ahead marker behind hc

theorem bind_apply (w : Walk α) (f : α → Walk β) (c : Cursor) :
    (w >>= f) c = match w c with
      | .ok a c' => f a c'
      | .error e c' => .error e c' := by
  change EStateM.bind w f c = _
  unfold EStateM.bind
  cases w c <;> rfl

theorem follows_pure (a : α) : Follows (pure a) (pure a) := fun _ _ _ _ _ hc => .done hc

theorem follows_fail (e : SyntaxError) : Follows (fail e : Walk α) (Reader.fail e) :=
  fun _ _ _ _ _ hc => .failed hc

theorem follows_exhausted : Follows (exhausted : Walk α) Reader.exhausted :=
  fun _ _ _ _ _ hc => .exhausted hc

theorem follows_bind {f : α → Walk β} {g : α → Reader β} (h : Follows w p)
    (hf : ∀ a, Follows (f a) (g a)) : Follows (w >>= f) (p >>= g) := by
  intro c tokens ahead marker behind hc
  rw [bind_apply, Reader.bind_apply]
  have hends := h c tokens ahead marker behind hc
  revert hends
  generalize p marker ahead = r
  generalize w c = r'
  intro hends
  cases hends with
  | @done a rest c' hc' => exact hf a c' tokens rest marker behind hc'
  | failed hc' => exact .failed hc'
  | exhausted hc' => exact .exhausted hc'

theorem follows_peek {f : Token → Walk α} {g : Token → Reader α}
    (h : ∀ t, FollowsFrom t (f t) (g t)) : Follows (peek >>= f) (Reader.peek >>= g) := by
  intro c tokens ahead marker behind hc
  have hends := h c.current c tokens ahead marker behind hc hc.current_eq.symm
  rw [hc.current_eq] at hends
  rw [bind_apply, peek, hc.current_eq]
  exact hends

/-- A token that the walk has looked at is taken. -/
theorem follows_take {f : Token → Walk α} {g : Token → Reader α} (hk : t.kind ≠ .endOfInput)
    (h : ∀ t, Follows (f t) (g t)) : FollowsFrom t (take >>= f) (Reader.take >>= g) := by
  rintro c tokens ahead marker behind hc rfl
  rw [bind_apply, take, hc.current_eq]
  exact h _ _ _ _ _ _ (hc.advance hk)

theorem follows_accept {f : Bool → Walk α} {g : Bool → Reader α} (hk : kind ≠ .endOfInput)
    (h : ∀ b, Follows (f b) (g b)) : Follows (accept kind >>= f) (Reader.accept kind >>= g) := by
  refine follows_bind (fun c tokens ahead marker behind hc => ?_) h
  rw [accept, Reader.accept, hc.current_eq]
  split
  · next hnext => exact .done (hc.advance (hnext ▸ hk))
  · exact .done hc

theorem follows_expect {f : Token → Walk α} {g : Token → Reader α} (hk : kind ≠ .endOfInput)
    (h : ∀ t, Follows (f t) (g t)) : Follows (expect kind >>= f) (Reader.expect kind >>= g) := by
  refine follows_bind (fun c tokens ahead marker behind hc => ?_) h
  rw [expect, Reader.expect, hc.current_eq]
  split
  · next hnext => exact .done (hc.advance (hnext ▸ hk))
  · exact .failed hc

theorem follows_name {f : String → Walk α} {g : String → Reader α} (h : ∀ s, Follows (f s) (g s)) :
    Follows (name >>= f) (Reader.name >>= g) :=
  follows_bind (follows_expect (by decide) fun t => follows_pure t.text) h

/-- Walks that read a list follow readers that read one. -/
theorem follows_items {close : Kind} {item : Walk α} {item' : Reader α} {more : Walk (List α)}
    {more' : Reader (List α)} (hitem : Follows item item') (hmore : Follows more more') :
    Follows (items close item more) (Reader.items close item' more') := by
  refine follows_peek fun t => Follows.from ?_ t
  by_cases hclose : t.kind = close
  · rw [if_pos hclose, if_pos hclose]
    exact follows_pure []
  · rw [if_neg hclose, if_neg hclose]
    refine follows_bind hitem fun a => follows_accept (by decide) fun b => ?_
    cases b with
    | false => exact follows_pure [a]
    | true => exact follows_bind hmore fun as => follows_pure (a :: as)

/-! ## Productions -/

/-- With this bound, the walks follow the readers. -/
structure Track (n : Nat) : Prop where
  parameters : Follows (parameters n) (Grammar.parameters n)
  expression : Follows (expression n) (Grammar.expression n)
  unassigned : Follows (unassigned n) (Grammar.unassigned n)
  properties : Follows (properties n) (Grammar.properties n)
  property : Follows (property n) (Grammar.property n)
  binary : ∀ levels, (∀ level ∈ levels, level .endOfInput = none) →
    Follows (binary n levels) (Grammar.binary n levels)
  chain : ∀ level tighter left, level .endOfInput = none →
    (∀ level ∈ tighter, level .endOfInput = none) →
      Follows (chain n level tighter left) (Grammar.chain n level tighter left)
  suffixed : Follows (suffixed n) (Grammar.suffixed n)
  suffixes : ∀ base, Follows (suffixes n base) (Grammar.suffixes n base)
  primary : Follows (primary n) (Grammar.primary n)
  expressions : ∀ close, Follows (expressions n close) (Grammar.expressions n close)
  statement : Follows (statement n) (Grammar.statement n)
  bareStatement : Follows (bareStatement n) (Grammar.bareStatement n)
  body : Follows (body n) (Grammar.body n)
  block : Follows (block n) (Grammar.block n)
  statements : ∀ stop, Follows (statements n stop) (Grammar.statements n stop)

namespace Track

variable {n : Nat}

theorem zero : Track 0 := by
  constructor <;> intros <;> exact follows_exhausted

theorem parameters_succ (ih : Track n) :
    Follows (Walk.parameters (n + 1)) (Grammar.parameters (n + 1)) := by
  rw [Walk.parameters, Grammar.parameters]
  refine follows_peek fun t => ?_
  by_cases hclose : t.kind = .rightParen
  · rw [if_pos hclose, if_pos hclose]
    exact (follows_pure []).from t
  rw [if_neg hclose, if_neg hclose]
  by_cases hk : t.kind = .identifier
  · rw [if_pos hk, if_pos hk]
    refine follows_take (by rw [hk]; decide) fun _ => follows_accept (by decide) fun b => ?_
    cases b with
    | false => exact follows_pure [t.text]
    | true => exact follows_bind ih.parameters fun names => follows_pure (t.text :: names)
  · rw [if_neg hk, if_neg hk]
    exact (follows_fail _).from t

theorem expression_succ (ih : Track n) :
    Follows (Walk.expression (n + 1)) (Grammar.expression (n + 1)) := by
  rw [Walk.expression, Grammar.expression]
  refine follows_bind ih.unassigned fun target => follows_accept (by decide) fun b => ?_
  cases b with
  | false => exact follows_pure target
  | true => exact follows_bind ih.expression fun value => follows_pure _

theorem unassigned_succ (ih : Track n) :
    Follows (Walk.unassigned (n + 1)) (Grammar.unassigned (n + 1)) := by
  rw [Walk.unassigned, Grammar.unassigned]
  refine follows_accept (by decide) fun b => ?_
  cases b with
  | false => exact ih.binary _ Grammar.levels_endOfInput
  | true =>
    exact follows_bind ih.properties fun entries => follows_expect (by decide) fun _ =>
      follows_pure _

theorem properties_succ (ih : Track n) :
    Follows (Walk.properties (n + 1)) (Grammar.properties (n + 1)) := by
  rw [Walk.properties, Grammar.properties_eq_items]
  exact follows_items ih.property ih.properties

theorem property_succ (ih : Track n) :
    Follows (Walk.property (n + 1)) (Grammar.property (n + 1)) := by
  rw [Walk.property, Grammar.property]
  refine follows_name fun key => follows_accept (by decide) fun b => ?_
  cases b with
  | false => exact follows_pure _
  | true => exact follows_bind ih.expression fun value => follows_pure _

theorem binary_succ (ih : Track n) (levels : List Operator.Level)
    (hlevels : ∀ level ∈ levels, level .endOfInput = none) :
    Follows (Walk.binary (n + 1) levels) (Grammar.binary (n + 1) levels) := by
  cases levels with
  | nil =>
    rw [Walk.binary, Grammar.binary]
    exact ih.suffixed
  | cons level tighter =>
    rw [Walk.binary, Grammar.binary]
    simp only [List.mem_cons, forall_eq_or_imp] at hlevels
    exact follows_bind (ih.binary tighter hlevels.2) fun left =>
      ih.chain level tighter left hlevels.1 hlevels.2

theorem chain_succ (ih : Track n) (level : Operator.Level) (tighter : List Operator.Level)
    (left : Expr) (hlevel : level .endOfInput = none)
    (htighter : ∀ level ∈ tighter, level .endOfInput = none) :
    Follows (Walk.chain (n + 1) level tighter left)
      (Grammar.chain (n + 1) level tighter left) := by
  rw [Walk.chain, Grammar.chain]
  refine follows_peek fun t => ?_
  cases hop : level t.kind with
  | none => exact (follows_pure left).from t
  | some operator =>
    -- No level has an operator that an end marker writes.
    have hk : t.kind ≠ .endOfInput := by
      intro hk
      rw [hk, hlevel] at hop
      cases hop
    exact follows_take hk fun _ => follows_bind (ih.binary tighter htighter) fun right =>
      ih.chain level tighter (.binary operator left right) hlevel htighter

theorem suffixed_succ (ih : Track n) :
    Follows (Walk.suffixed (n + 1)) (Grammar.suffixed (n + 1)) := by
  rw [Walk.suffixed, Grammar.suffixed]
  exact follows_bind ih.primary ih.suffixes

theorem suffixes_succ (ih : Track n) (base : Expr) :
    Follows (Walk.suffixes (n + 1) base) (Grammar.suffixes (n + 1) base) := by
  rw [Walk.suffixes, Grammar.suffixes]
  refine follows_peek fun t => ?_
  cases hk : t.kind with
  | dot =>
    exact follows_take (by rw [hk]; decide) fun _ => follows_name fun key => ih.suffixes _
  | leftBracket =>
    exact follows_take (by rw [hk]; decide) fun _ => follows_bind ih.expression fun index =>
      follows_expect (by decide) fun _ => ih.suffixes _
  | leftParen =>
    exact follows_take (by rw [hk]; decide) fun _ =>
      follows_bind (ih.expressions .rightParen) fun arguments =>
        follows_expect (by decide) fun _ => ih.suffixes _
  | _ => exact (follows_pure base).from t

theorem primary_succ (ih : Track n) :
    Follows (Walk.primary (n + 1)) (Grammar.primary (n + 1)) := by
  rw [Walk.primary, Grammar.primary]
  refine follows_peek fun t => ?_
  cases hk : t.kind with
  | identifier | string => exact follows_take (by rw [hk]; decide) fun _ => follows_pure _
  | number =>
    refine follows_take (by rw [hk]; decide) fun _ => ?_
    cases Numeral.value? t.text with
    | some value => exact follows_pure _
    | none => exact follows_fail _
  | leftParen =>
    exact follows_take (by rw [hk]; decide) fun _ => follows_bind ih.expression fun inner =>
      follows_expect (by decide) fun _ => follows_pure inner
  | leftBracket =>
    exact follows_take (by rw [hk]; decide) fun _ =>
      follows_bind (ih.expressions .rightBracket) fun elements =>
        follows_expect (by decide) fun _ => follows_pure _
  | _ => exact (follows_fail _).from t

theorem expressions_succ (ih : Track n) (close : Kind) :
    Follows (Walk.expressions (n + 1) close) (Grammar.expressions (n + 1) close) := by
  rw [Walk.expressions, Grammar.expressions_eq_items]
  exact follows_items ih.expression (ih.expressions close)

theorem statement_succ (ih : Track n) :
    Follows (Walk.statement (n + 1)) (Grammar.statement (n + 1)) := by
  rw [Walk.statement, Grammar.statement]
  exact follows_bind ih.bareStatement fun result => follows_accept (by decide) fun _ =>
    follows_pure result

theorem bareStatement_succ (ih : Track n) :
    Follows (Walk.bareStatement (n + 1)) (Grammar.bareStatement (n + 1)) := by
  rw [Walk.bareStatement, Grammar.bareStatement]
  refine follows_peek fun t => ?_
  -- The cursor moves only over a token that is not the end, so that there is always a current one.
  cases hk : t.kind with
  | letKeyword =>
    refine follows_take (by rw [hk]; decide) fun _ => follows_expect (by decide) fun declared =>
      follows_accept (by decide) fun b => ?_
    cases b with
    | false => exact follows_pure _
    | true => exact follows_bind ih.expression fun init => follows_pure _
  | constKeyword =>
    refine follows_take (by rw [hk]; decide) fun _ => follows_expect (by decide) fun declared =>
      follows_accept (by decide) fun b => ?_
    cases b with
    | false => exact follows_fail _
    | true => exact follows_bind ih.expression fun init => follows_pure _
  | functionKeyword =>
    exact follows_take (by rw [hk]; decide) fun _ => follows_name fun declared =>
      follows_expect (by decide) fun _ => follows_bind ih.parameters fun params =>
        follows_expect (by decide) fun _ => follows_bind ih.block fun statements =>
          follows_pure _
  | ifKeyword =>
    refine follows_take (by rw [hk]; decide) fun _ => follows_bind ih.expression fun condition =>
      follows_bind ih.body fun thenBody => follows_accept (by decide) fun b => ?_
    cases b with
    | false => exact follows_pure _
    | true => exact follows_bind ih.body fun elseBody => follows_pure _
  | whileKeyword =>
    exact follows_take (by rw [hk]; decide) fun _ => follows_bind ih.expression fun condition =>
      follows_bind ih.body fun statements => follows_pure _
  | importKeyword =>
    exact follows_take (by rw [hk]; decide) fun _ => follows_expect (by decide) fun path =>
      follows_pure _
  | _ => exact (follows_bind ih.expression fun value => follows_pure _).from t

theorem body_succ (ih : Track n) : Follows (Walk.body (n + 1)) (Grammar.body (n + 1)) := by
  rw [Walk.body, Grammar.body]
  refine follows_peek fun t => Follows.from ?_ t
  by_cases hk : t.kind = .leftBrace
  · rw [if_pos hk, if_pos hk]
    exact ih.block
  · rw [if_neg hk, if_neg hk]
    exact follows_bind ih.statement fun single => follows_pure [single]

theorem block_succ (ih : Track n) : Follows (Walk.block (n + 1)) (Grammar.block (n + 1)) := by
  rw [Walk.block, Grammar.block]
  exact follows_expect (by decide) fun _ => follows_bind (ih.statements .rightBrace) fun result =>
    follows_expect (by decide) fun _ => follows_pure result

theorem statements_succ (ih : Track n) (stop : Kind) :
    Follows (Walk.statements (n + 1) stop) (Grammar.statements (n + 1) stop) := by
  rw [Walk.statements, Grammar.statements]
  refine follows_peek fun t => Follows.from ?_ t
  by_cases hk : t.kind = stop ∨ t.kind = .endOfInput
  · rw [if_pos hk, if_pos hk]
    exact follows_pure []
  · rw [if_neg hk, if_neg hk]
    exact follows_bind ih.statement fun first => follows_bind (ih.statements stop) fun others =>
      follows_pure (first :: others)

theorem succ (ih : Track n) : Track (n + 1) where
  parameters := ih.parameters_succ
  expression := ih.expression_succ
  unassigned := ih.unassigned_succ
  properties := ih.properties_succ
  property := ih.property_succ
  binary := ih.binary_succ
  chain := ih.chain_succ
  suffixed := ih.suffixed_succ
  suffixes := ih.suffixes_succ
  primary := ih.primary_succ
  expressions := ih.expressions_succ
  statement := ih.statement_succ
  bareStatement := ih.bareStatement_succ
  body := ih.body_succ
  block := ih.block_succ
  statements := ih.statements_succ

/-- Whatever the bound is, the walks follow the readers. -/
theorem all : ∀ n, Track n
  | 0 => zero
  | n + 1 => (all n).succ

end Track

/-! ## How walks end -/

section Ends

variable {tokens behind : List Token} {marker : Token} {r : Reading α}
variable {result : EStateM.Result Halt Cursor α}

theorem Ends.outcome?_eq (h : Ends tokens marker behind r result) :
    outcome? result = r.outcome? := by
  cases h <;> rfl

theorem Ends.faces (h : Ends tokens marker behind r result) :
    ∃ rest, (final result).Faces tokens rest marker behind := by
  cases h with
  | done hc | failed hc | exhausted hc => exact ⟨_, hc⟩

/-- A walk that follows a reader that takes a token moves the cursor on. -/
theorem Follows.advances (h : Follows w p) (htakes : ∀ marker ts, marker.kind = .endOfInput →
    (p marker ts).Takes ts fun _ us _ => us ≠ []) {c c' : Cursor} {a : α} (hok : w c = .ok a c') :
    c'.tokens = c.tokens ∧ c.pos < c'.pos := by
  obtain ⟨ahead, marker, behind, hc⟩ := c.exists_faces
  have hends := h c _ _ _ _ hc
  have htaken := htakes marker ahead hc.marker_kind
  rw [hok] at hends
  cases hr : p marker ahead with
  | done a' rest =>
    rw [hr] at hends htaken
    obtain ⟨used, hused, hne⟩ := htaken
    cases hends with
    | done hc' =>
      have hlength := hc.length_eq
      have hlength' := hc'.length_eq
      have hpos := List.length_pos_iff.2 hne
      rw [hused, List.length_append] at hlength
      exact ⟨hc'.tokens_eq, by omega⟩
  | failed e | exhausted =>
    rw [hr] at hends
    cases hends

end Ends

theorem expression_advances {n : Nat} {c c' : Cursor} {e : Expr} (h : expression n c = .ok e c') :
    c'.tokens = c.tokens ∧ c.pos < c'.pos :=
  (Track.all n).expression.advances
    (fun _ ts hm => Grammar.takes_some ((Grammar.sound hm n).expression ts)) h

theorem statement_advances {n : Nat} {c c' : Cursor} {s : Stmt} (h : statement n c = .ok s c') :
    c'.tokens = c.tokens ∧ c.pos < c'.pos :=
  (Track.all n).statement.advances (fun _ ts hm => Grammar.statement_takes_some hm n ts) h

end Walk

/-! ## The first end marker -/

namespace Token

/-- The tokens up to the first end marker, which is the last of them. -/
def throughEnd : List Token → List Token
  | [] => []
  | t :: ts => if t.kind = .endOfInput then [t] else t :: throughEnd ts

theorem splitAtEnd_throughEnd (tokens : List Token) :
    splitAtEnd (throughEnd tokens) = splitAtEnd tokens := by
  fun_induction splitAtEnd tokens with
  | case1 => rfl
  | case2 t h => simp [throughEnd, splitAtEnd, h]
  | case3 t h => simp [throughEnd, splitAtEnd, h]
  | case4 t u ts h => simp [throughEnd, splitAtEnd, h]
  | case5 t u ts h tokens marker hs ih =>
    rw [throughEnd, if_neg h]
    cases hcut : throughEnd (u :: ts) with
    | nil =>
      rw [throughEnd] at hcut
      split at hcut <;> cases hcut
    | cons v vs => rw [splitAtEnd, if_neg h, ← hcut, ih, hs]

end Token

theorem Cursor.ofTokens_faces (tokens : List Token) : ∃ behind,
    (ofTokens tokens).Faces (Token.marked tokens) (Token.splitAtEnd tokens).1
      (Token.splitAtEnd tokens).2 behind := by
  obtain ⟨behind, hmarked⟩ := Token.marked_eq tokens
  exact ⟨behind, rfl, hmarked, Token.splitAtEnd_marker tokens⟩

namespace Program

variable {n : Nat}

/-- With every bound that is large enough, the reading ends with the program or its error. -/
theorem outcome?_reading (tokens : List Token)
    (h : depthFor (Token.splitAtEnd tokens).1.length ≤ n) :
    (Grammar.statements n .endOfInput (Token.splitAtEnd tokens).2
      (Token.splitAtEnd tokens).1).outcome? = some (ofTokens tokens) := by
  have hm := Token.splitAtEnd_marker tokens
  have hread := ofTokens_reading tokens
  have hadequate := (Grammar.statementAdequate hm n).statements (Token.splitAtEnd tokens).1
    .endOfInput (by unfold depthFor at h; omega)
  have hprompt := (Grammar.statementPrompts hm n).statements .endOfInput (.inr rfl)
    (Token.splitAtEnd tokens).1
  rw [ofTokens]
  rw [Reader.Prompt] at hprompt
  -- Both readings are prompt: what one of them comes to at a prefix, so does the other.
  generalize Token.splitAtEnd tokens = split at *
  obtain ⟨ahead, marker⟩ := split
  dsimp only at *
  cases hr : Grammar.statements n .endOfInput marker ahead with
  | done program rest =>
    rw [hr] at hprompt
    obtain ⟨used, rfl, hsame⟩ := hprompt
    rw [(hsame _ marker rest (.inl rfl)).resolve_left hread]
    rfl
  | failed e =>
    rw [hr] at hprompt
    obtain ⟨before, rest, rfl, -, hsame, -⟩ := hprompt
    rw [(hsame _ marker rest rfl).resolve_left hread]
    rfl
  | exhausted =>
    rw [hr] at hadequate
    exact hadequate.elim

theorem ofTokens_throughEnd (tokens : List Token) :
    ofTokens (Token.throughEnd tokens) = ofTokens tokens := by
  rw [ofTokens, ofTokens, Token.splitAtEnd_throughEnd]

end Program

namespace Walk

theorem outcome?_program (n : Nat) (tokens : List Token) :
    outcome? (program n tokens) = (Grammar.statements n .endOfInput (Token.splitAtEnd tokens).2
      (Token.splitAtEnd tokens).1).outcome? := by
  obtain ⟨behind, hc⟩ := Cursor.ofTokens_faces tokens
  exact ((Track.all n).statements .endOfInput _ _ _ _ _ hc).outcome?_eq

/-- A cursor that faces some of the tokens never was behind the end marker. -/
theorem position_of_faces {tokens ahead rest behind : List Token} {marker : Token} {c : Cursor}
    (hsplit : tokens = ahead ++ marker :: behind) (hne : ∀ t ∈ ahead, t.kind ≠ .endOfInput)
    (h : c.Faces tokens rest marker behind) : ∀ i ∈ c.positions, i < tokens.length ∧
      ∀ t ∈ tokens.take i, t.kind ≠ .endOfInput := by
  intro i hi
  have hle : i ≤ c.pos := by
    obtain rfl | hpast := List.mem_cons.1 hi
    · exact Nat.le_refl _
    · exact c.past_le i hpast
  have hlength := h.length_eq
  have hsum := congrArg List.length hsplit
  rw [List.length_append, List.length_cons] at hsum
  refine ⟨by omega, fun t ht => hne t ?_⟩
  rw [hsplit, List.take_append_of_le_length (by omega)] at ht
  exact List.mem_of_mem_take ht

theorem program_positions (n : Nat) (tokens : List Token) :
    ∀ i ∈ (final (program n tokens)).positions, i < (Token.marked tokens).length ∧
      ∀ t ∈ (Token.marked tokens).take i, t.kind ≠ .endOfInput := by
  obtain ⟨behind, hc⟩ := Cursor.ofTokens_faces tokens
  obtain ⟨rest, hfinal⟩ := ((Track.all n).statements .endOfInput _ _ _ _ _ hc).faces
  exact position_of_faces hc.drop_eq (fun t => Token.kind_ne_of_mem_splitAtEnd) hfinal

/-- A walk over any list of tokens reads what the readers read, within a bound that depends on the
number of the tokens only; statements and expressions move the cursor on; the cursor stays inside
the list and does not go beyond the first end marker; and nothing behind that marker matters. -/
theorem program_total (tokens : List Token) :
    (∀ n, Program.depthFor tokens.length ≤ n →
        outcome? (program n tokens) = some (Program.ofTokens tokens)) ∧
      (∀ (n : Nat) (c c' : Cursor),
        (∀ s, statement n c = .ok s c' → c'.tokens = c.tokens ∧ c.pos < c'.pos) ∧
          ∀ e, expression n c = .ok e c' → c'.tokens = c.tokens ∧ c.pos < c'.pos) ∧
      (∀ n, ∀ i ∈ (final (program n tokens)).positions, i < (Token.marked tokens).length ∧
        ∀ t ∈ (Token.marked tokens).take i, t.kind ≠ .endOfInput) ∧
      Program.ofTokens (Token.throughEnd tokens) = Program.ofTokens tokens ∧
      ∀ n, outcome? (program n (Token.throughEnd tokens)) = outcome? (program n tokens) := by
  refine ⟨fun n hn => ?_, fun n c c' => ⟨fun s => statement_advances, fun e => expression_advances⟩,
    fun n => program_positions n tokens, Program.ofTokens_throughEnd tokens, fun n => ?_⟩
  · have hlength : (Token.splitAtEnd tokens).1.length ≤ tokens.length := by
      rw [Token.splitAtEnd_fst]
      exact (List.takeWhile_prefix _).length_le
    rw [outcome?_program]
    exact Program.outcome?_reading tokens (by unfold Program.depthFor at hn ⊢; omega)
  · rw [outcome?_program, outcome?_program, Token.splitAtEnd_throughEnd]

/-- In `a <end> b` the name in front of the end marker is the program, and the cursor does not go
on to the one behind it. -/
theorem program_total_middle :
    let tokens : List Token :=
      [⟨.identifier, "a", ⟨0, 1⟩⟩, .endOfInput 1, ⟨.identifier, "b", ⟨2, 3⟩⟩]
    outcome? (program 64 tokens) = some (.ok [.expression (.identifier "a")]) ∧
      (final (program 64 tokens)).positions = [1, 0] ∧
      outcome? (program 64 [⟨.identifier, "a", ⟨0, 1⟩⟩, .endOfInput 1]) =
        outcome? (program 64 tokens) ∧
      ∃ c', statement 64 (Cursor.ofTokens tokens) = .ok (.expression (.identifier "a")) c' ∧
        0 < c'.pos := by
  intro tokens
  obtain ⟨htotal, hadvances, -, -, hcut⟩ := program_total tokens
  have hstatement : statement 64 (Cursor.ofTokens tokens) =
      .ok (.expression (.identifier "a")) (Cursor.ofTokens tokens).advance := rfl
  exact ⟨htotal 64 (by decide), rfl, hcut 64, _, hstatement,
    ((hadvances 64 _ _).1 _ hstatement).2⟩

end Walk

end DialectScript
