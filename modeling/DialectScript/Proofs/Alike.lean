import DialectScript.Proofs.FirstError
import Mathlib.Data.List.Forall2

/-!
# Tokens that are read alike

Two tokens are alike (`Token.Alike`) if they are of one kind and have one text, where the text of a
keyword and the place of a token do not count.

* `Program.ofTokens_alike` — **alike tokens are read alike**: they spell the same program, or the
  errors have alike causes.
* `Program.error_place` — **in the second case the errors name tokens at the same index.**

A reader never looks at the spelling of a keyword or at a place, except to put them into an error.
Each way to compose readers keeps that (`Reader.Alike`), so the proof is one induction on the bound
of the readers (`Grammar.Blind`), with a case for each. For the index, the tokens before the one
that an error names can be completed to a program, and no program begins with that token as well;
both hold of alike tokens, too.
-/

namespace DialectScript

/-- The tokens are of one kind and, keywords apart, have one text. -/
structure Token.Alike (t t' : Token) : Prop where
  kind : t'.kind = t.kind
  text : t.kind.isKeyword = false → t'.text = t.text

/-- The causes are the same, but for the text of a keyword that was found. -/
inductive SyntaxCause.Alike : SyntaxCause → SyntaxCause → Prop
  | unexpectedToken {expected found : Kind} {text text' : String} :
      (found.isKeyword = false → text' = text) →
      Alike (.unexpectedToken expected found text) (.unexpectedToken expected found text')
  | expectedExpression {found : Kind} {text text' : String} :
      (found.isKeyword = false → text' = text) →
      Alike (.expectedExpression found text) (.expectedExpression found text')
  | missingInitializer (name : String) : Alike (.missingInitializer name) (.missingInitializer name)
  | invalidParameter {found : Kind} {text text' : String} :
      (found.isKeyword = false → text' = text) →
      Alike (.invalidParameter found text) (.invalidParameter found text')
  | invalidNumber (text : String) : Alike (.invalidNumber text) (.invalidNumber text)

/-- The readings end alike. -/
inductive Reading.Alike {α : Type} : Reading α → Reading α → Prop
  | done (a : α) {rest rest' : List Token} :
      List.Forall₂ Token.Alike rest rest' → Alike (.done a rest) (.done a rest')
  | failed {e e' : SyntaxError} : e.cause.Alike e'.cause → Alike (.failed e) (.failed e')
  | exhausted : Alike .exhausted .exhausted

/-- The readers read alike tokens alike. -/
def Reader.Alike {α : Type} (p p' : Reader α) : Prop :=
  ∀ marker marker' ts ts', marker.Alike marker' → List.Forall₂ Token.Alike ts ts' →
    (p marker ts).Alike (p' marker' ts')

namespace Token.Alike

variable {t t' : Token}

theorem refl (t : Token) : t.Alike t := ⟨rfl, fun _ => rfl⟩

theorem symm (h : t.Alike t') : t'.Alike t :=
  ⟨h.kind.symm, fun hk => (h.text (h.kind ▸ hk)).symm⟩

theorem text_eq (h : t.Alike t') {kind : Kind} (hk : t.kind = kind)
    (hkind : kind.isKeyword = false) : t'.text = t.text :=
  h.text (hk ▸ hkind)

end Token.Alike

/-! ## Single steps -/

namespace Reader

variable {α β : Type} {kind : Kind}

theorem alike_next {marker marker' : Token} {ts ts' : List Token} (hm : marker.Alike marker')
    (hts : List.Forall₂ Token.Alike ts ts') : (next marker ts).Alike (next marker' ts') := by
  cases hts with
  | nil => exact hm
  | cons ht _ => exact ht

theorem alike_tail {ts ts' : List Token} (hts : List.Forall₂ Token.Alike ts ts') :
    List.Forall₂ Token.Alike ts.tail ts'.tail := by
  cases hts with
  | nil => exact .nil
  | cons _ hts => exact hts

theorem alike_pure (a : α) : Alike (pure a) (pure a) := fun _ _ _ _ _ hts => .done a hts

theorem alike_fail {e e' : SyntaxError} (h : e.cause.Alike e'.cause) :
    Alike (fail e : Reader α) (fail e') := fun _ _ _ _ _ _ => .failed h

theorem alike_exhausted : Alike (exhausted : Reader α) exhausted := fun _ _ _ _ _ _ => .exhausted

theorem alike_bind {p p' : Reader α} {f f' : α → Reader β} (hp : Alike p p')
    (hf : ∀ a, Alike (f a) (f' a)) : Alike (p >>= f) (p' >>= f') := by
  intro marker marker' ts ts' hm hts
  rw [bind_apply, bind_apply]
  have hread := hp marker marker' ts ts' hm hts
  revert hread
  generalize p marker ts = r
  generalize p' marker' ts' = r'
  intro hread
  cases hread with
  | done a hrest => exact hf a _ _ _ _ hm hrest
  | failed he => exact .failed he
  | exhausted => exact .exhausted

theorem alike_peek {f f' : Token → Reader α} (h : ∀ t t', t.Alike t' → Alike (f t) (f' t')) :
    Alike (peek >>= f) (peek >>= f') := fun _ _ _ _ hm hts =>
  h _ _ (alike_next hm hts) _ _ _ _ hm hts

theorem alike_take {f f' : Token → Reader α} (h : ∀ t t', t.Alike t' → Alike (f t) (f' t')) :
    Alike (take >>= f) (take >>= f') := fun _ _ _ _ hm hts =>
  h _ _ (alike_next hm hts) _ _ _ _ hm (alike_tail hts)

theorem alike_accept {f f' : Bool → Reader α} (h : ∀ b, Alike (f b) (f' b)) :
    Alike (accept kind >>= f) (accept kind >>= f') := by
  refine alike_bind (fun marker marker' ts ts' hm hts => ?_) h
  rw [accept, accept, (alike_next hm hts).kind]
  split
  · exact .done true (alike_tail hts)
  · exact .done false hts

theorem alike_expect {f f' : Token → Reader α}
    (h : ∀ t t', t.Alike t' → t.kind = kind → Alike (f t) (f' t')) :
    Alike (expect kind >>= f) (expect kind >>= f') := by
  intro marker marker' ts ts' hm hts
  have hnext := alike_next hm hts
  rw [bind_apply, bind_apply, expect, expect, hnext.kind]
  by_cases hk : (next marker ts).kind = kind
  · rw [if_pos hk, if_pos hk]
    exact h _ _ hnext hk _ _ _ _ hm (alike_tail hts)
  · rw [if_neg hk, if_neg hk]
    refine .failed ?_
    rw [SyntaxError.unexpected, SyntaxError.unexpected, hnext.kind]
    exact .unexpectedToken hnext.text

/-- A name is the same in alike tokens. -/
theorem alike_name {f f' : String → Reader α} (h : ∀ name, Alike (f name) (f' name)) :
    Alike (name >>= f) (name >>= f') := by
  rw [name_bind, name_bind]
  refine alike_expect fun t t' ht hk => ?_
  rw [ht.text_eq hk rfl]
  exact h t.text

/-- A round of reading a list. -/
theorem alike_items {close : Kind} {item item' : Reader α} {more more' : Reader (List α)}
    (hitem : Alike item item') (hmore : Alike more more') :
    Alike (items close item more) (items close item' more') := by
  refine alike_peek fun t t' ht => ?_
  rw [ht.kind]
  split
  · exact alike_pure []
  · refine alike_bind hitem fun a => alike_accept fun b => ?_
    cases b with
    | false => exact alike_pure [a]
    | true => exact alike_bind hmore fun as => alike_pure (a :: as)

end Reader

/-! ## Readers -/

namespace Grammar

open Reader

/-- With this bound, the readers read alike tokens alike. -/
structure Blind (n : Nat) : Prop where
  parameters : Alike (parameters n) (parameters n)
  expression : Alike (expression n) (expression n)
  unassigned : Alike (unassigned n) (unassigned n)
  properties : Alike (properties n) (properties n)
  property : Alike (property n) (property n)
  binary : ∀ levels, Alike (binary n levels) (binary n levels)
  chain : ∀ level tighter left, Alike (chain n level tighter left) (chain n level tighter left)
  suffixed : Alike (suffixed n) (suffixed n)
  suffixes : ∀ base, Alike (suffixes n base) (suffixes n base)
  primary : Alike (primary n) (primary n)
  expressions : ∀ close, Alike (expressions n close) (expressions n close)
  statement : Alike (statement n) (statement n)
  bareStatement : Alike (bareStatement n) (bareStatement n)
  body : Alike (body n) (body n)
  block : Alike (block n) (block n)
  statements : ∀ stop, Alike (statements n stop) (statements n stop)

namespace Blind

variable {n : Nat}

theorem zero : Blind 0 := by
  constructor <;> intros <;> exact alike_exhausted

theorem parameters_succ (ih : Blind n) :
    Alike (Grammar.parameters (n + 1)) (Grammar.parameters (n + 1)) := by
  rw [Grammar.parameters]
  refine alike_peek fun t t' ht => ?_
  rw [ht.kind]
  split
  · exact alike_pure []
  split
  · next hk =>
    rw [ht.text_eq hk rfl]
    refine alike_take fun _ _ _ => alike_accept fun b => ?_
    cases b with
    | false => exact alike_pure _
    | true => exact alike_bind ih.parameters fun names => alike_pure _
  · refine alike_fail ?_
    rw [SyntaxError.noParameter, SyntaxError.noParameter, ht.kind]
    exact .invalidParameter ht.text

theorem expression_succ (ih : Blind n) :
    Alike (Grammar.expression (n + 1)) (Grammar.expression (n + 1)) := by
  rw [Grammar.expression]
  refine alike_bind ih.unassigned fun target => alike_accept fun b => ?_
  cases b with
  | false => exact alike_pure _
  | true => exact alike_bind ih.expression fun value => alike_pure _

theorem unassigned_succ (ih : Blind n) :
    Alike (Grammar.unassigned (n + 1)) (Grammar.unassigned (n + 1)) := by
  rw [Grammar.unassigned]
  refine alike_accept fun b => ?_
  cases b with
  | false => exact ih.binary _
  | true =>
    exact alike_bind ih.properties fun entries => alike_expect fun _ _ _ _ => alike_pure _

theorem properties_succ (ih : Blind n) :
    Alike (Grammar.properties (n + 1)) (Grammar.properties (n + 1)) := by
  rw [properties_eq_items]
  exact alike_items ih.property ih.properties

theorem property_succ (ih : Blind n) :
    Alike (Grammar.property (n + 1)) (Grammar.property (n + 1)) := by
  rw [Grammar.property]
  refine alike_name fun key => alike_accept fun b => ?_
  cases b with
  | false => exact alike_pure _
  | true => exact alike_bind ih.expression fun value => alike_pure _

theorem binary_succ (ih : Blind n) (levels : List Operator.Level) :
    Alike (Grammar.binary (n + 1) levels) (Grammar.binary (n + 1) levels) := by
  cases levels with
  | nil =>
    rw [Grammar.binary]
    exact ih.suffixed
  | cons level tighter =>
    rw [Grammar.binary]
    exact alike_bind (ih.binary tighter) fun left => ih.chain level tighter left

theorem chain_succ (ih : Blind n) (level : Operator.Level) (tighter : List Operator.Level)
    (left : Expr) :
    Alike (Grammar.chain (n + 1) level tighter left)
      (Grammar.chain (n + 1) level tighter left) := by
  rw [Grammar.chain]
  refine alike_peek fun t t' ht => ?_
  rw [ht.kind]
  cases level t.kind with
  | none => exact alike_pure left
  | some operator =>
    exact alike_take fun _ _ _ => alike_bind (ih.binary tighter) fun right => ih.chain _ _ _

theorem suffixed_succ (ih : Blind n) :
    Alike (Grammar.suffixed (n + 1)) (Grammar.suffixed (n + 1)) := by
  rw [Grammar.suffixed]
  exact alike_bind ih.primary ih.suffixes

theorem suffixes_succ (ih : Blind n) (base : Expr) :
    Alike (Grammar.suffixes (n + 1) base) (Grammar.suffixes (n + 1) base) := by
  rw [Grammar.suffixes]
  refine alike_peek fun t t' ht => ?_
  rw [ht.kind]
  cases t.kind with
  | dot => exact alike_take fun _ _ _ => alike_name fun key => ih.suffixes _
  | leftBracket =>
    exact alike_take fun _ _ _ => alike_bind ih.expression fun index =>
      alike_expect fun _ _ _ _ => ih.suffixes _
  | leftParen =>
    exact alike_take fun _ _ _ => alike_bind (ih.expressions _) fun arguments =>
      alike_expect fun _ _ _ _ => ih.suffixes _
  | _ => exact alike_pure base

theorem primary_succ (ih : Blind n) :
    Alike (Grammar.primary (n + 1)) (Grammar.primary (n + 1)) := by
  rw [Grammar.primary]
  refine alike_peek fun t t' ht => ?_
  rw [ht.kind]
  cases hk : t.kind with
  | identifier | string =>
    rw [ht.text_eq hk rfl]
    exact alike_take fun _ _ _ => alike_pure _
  | number =>
    rw [ht.text_eq hk rfl]
    refine alike_take fun _ _ _ => ?_
    cases Numeral.value? t.text with
    | some value => exact alike_pure _
    | none => exact alike_fail (.invalidNumber t.text)
  | leftParen =>
    exact alike_take fun _ _ _ => alike_bind ih.expression fun inner =>
      alike_expect fun _ _ _ _ => alike_pure _
  | leftBracket =>
    exact alike_take fun _ _ _ => alike_bind (ih.expressions _) fun elements =>
      alike_expect fun _ _ _ _ => alike_pure _
  | _ =>
    refine alike_fail ?_
    rw [SyntaxError.noExpression, SyntaxError.noExpression, ht.kind]
    exact .expectedExpression ht.text

theorem expressions_succ (ih : Blind n) (close : Kind) :
    Alike (Grammar.expressions (n + 1) close) (Grammar.expressions (n + 1) close) := by
  rw [expressions_eq_items]
  exact alike_items ih.expression (ih.expressions close)

theorem statement_succ (ih : Blind n) :
    Alike (Grammar.statement (n + 1)) (Grammar.statement (n + 1)) := by
  rw [Grammar.statement]
  exact alike_bind ih.bareStatement fun result => alike_accept fun _ => alike_pure result

theorem bareStatement_succ (ih : Blind n) :
    Alike (Grammar.bareStatement (n + 1)) (Grammar.bareStatement (n + 1)) := by
  rw [Grammar.bareStatement]
  refine alike_peek fun t t' ht => ?_
  rw [ht.kind]
  -- The texts that get into a statement, or into an error, are those of names and paths.
  cases t.kind with
  | letKeyword =>
    refine alike_take fun _ _ _ => alike_expect fun name name' hname hk => ?_
    rw [hname.text_eq hk rfl]
    refine alike_accept fun b => ?_
    cases b with
    | false => exact alike_pure _
    | true => exact alike_bind ih.expression fun init => alike_pure _
  | constKeyword =>
    refine alike_take fun _ _ _ => alike_expect fun name name' hname hk => ?_
    rw [hname.text_eq hk rfl]
    refine alike_accept fun b => ?_
    cases b with
    | false => exact alike_fail (.missingInitializer name.text)
    | true => exact alike_bind ih.expression fun init => alike_pure _
  | functionKeyword =>
    exact alike_take fun _ _ _ => alike_name fun declared => alike_expect fun _ _ _ _ =>
      alike_bind ih.parameters fun params => alike_expect fun _ _ _ _ =>
        alike_bind ih.block fun statements => alike_pure _
  | ifKeyword =>
    refine alike_take fun _ _ _ => alike_bind ih.expression fun condition =>
      alike_bind ih.body fun thenBody => alike_accept fun b => ?_
    cases b with
    | false => exact alike_pure _
    | true => exact alike_bind ih.body fun elseBody => alike_pure _
  | whileKeyword =>
    exact alike_take fun _ _ _ => alike_bind ih.expression fun condition =>
      alike_bind ih.body fun statements => alike_pure _
  | importKeyword =>
    refine alike_take fun _ _ _ => alike_expect fun path path' hpath hk => ?_
    rw [hpath.text_eq hk rfl]
    exact alike_pure _
  | _ => exact alike_bind ih.expression fun value => alike_pure _

theorem body_succ (ih : Blind n) : Alike (Grammar.body (n + 1)) (Grammar.body (n + 1)) := by
  rw [Grammar.body]
  refine alike_peek fun t t' ht => ?_
  rw [ht.kind]
  split
  · exact ih.block
  · exact alike_bind ih.statement fun single => alike_pure _

theorem block_succ (ih : Blind n) : Alike (Grammar.block (n + 1)) (Grammar.block (n + 1)) := by
  rw [Grammar.block]
  exact alike_expect fun _ _ _ _ => alike_bind (ih.statements _) fun result =>
    alike_expect fun _ _ _ _ => alike_pure result

theorem statements_succ (ih : Blind n) (stop : Kind) :
    Alike (Grammar.statements (n + 1) stop) (Grammar.statements (n + 1) stop) := by
  rw [Grammar.statements]
  refine alike_peek fun t t' ht => ?_
  rw [ht.kind]
  split
  · exact alike_pure []
  · exact alike_bind ih.statement fun first => alike_bind (ih.statements stop) fun others =>
      alike_pure _

theorem succ (ih : Blind n) : Blind (n + 1) where
  parameters := ih.parameters_succ
  expression := ih.expression_succ
  unassigned := ih.unassigned_succ
  properties := ih.properties_succ
  property := ih.property_succ
  binary := ih.binary_succ
  chain := ih.chain_succ
  suffixed := ih.suffixed_succ
  suffixes := ih.suffixes_succ
  primary := ih.primary_succ
  expressions := ih.expressions_succ
  statement := ih.statement_succ
  bareStatement := ih.bareStatement_succ
  body := ih.body_succ
  block := ih.block_succ
  statements := ih.statements_succ

/-- Whatever the bound is, the readers read alike tokens alike. -/
theorem all : ∀ n, Blind n
  | 0 => zero
  | n + 1 => (all n).succ

end Blind

end Grammar

/-! ## Programs -/

theorem Token.splitAtEnd_alike {tokens tokens' : List Token}
    (h : List.Forall₂ Token.Alike tokens tokens') :
    List.Forall₂ Token.Alike (splitAtEnd tokens).1 (splitAtEnd tokens').1 ∧
      (splitAtEnd tokens).2.Alike (splitAtEnd tokens').2 := by
  induction h with
  | nil => exact ⟨.nil, rfl, fun _ => rfl⟩
  | @cons t t' ts ts' ht hts ih =>
    by_cases hk : t.kind = .endOfInput
    · have hk' : t'.kind = .endOfInput := ht.kind.trans hk
      cases hts <;> simp only [splitAtEnd, hk, hk', if_true] <;> exact ⟨.nil, ht⟩
    · have hk' : t'.kind ≠ .endOfInput := ht.kind ▸ hk
      cases hts with
      | nil =>
        simp only [splitAtEnd, hk, hk', if_false]
        exact ⟨.cons ht .nil, rfl, fun _ => rfl⟩
      | cons hu hts =>
        simp only [splitAtEnd, hk, hk', if_false]
        exact ⟨.cons ht ih.1, ih.2⟩

/-- Alike tokens spell the same program, or the errors have alike causes. -/
theorem Program.ofTokens_alike {tokens tokens' : List Token}
    (h : List.Forall₂ Token.Alike tokens tokens') :
    (∃ program, ofTokens tokens = .ok program ∧ ofTokens tokens' = .ok program) ∨
      ∃ e e', ofTokens tokens = .error e ∧ ofTokens tokens' = .error e' ∧
        e.cause.Alike e'.cause := by
  obtain ⟨hahead, hmarker⟩ := Token.splitAtEnd_alike h
  have hdone := ofTokens_reading tokens
  have hread := (Grammar.Blind.all (depthFor (Token.splitAtEnd tokens).1.length)).statements
    .endOfInput _ _ _ _ hmarker hahead
  rw [ofTokens, ofTokens]
  dsimp only
  rw [← hahead.length_eq]
  revert hread hdone
  generalize Grammar.statements _ .endOfInput (Token.splitAtEnd tokens).2 _ = r
  generalize Grammar.statements _ .endOfInput (Token.splitAtEnd tokens').2 _ = r'
  intro hdone hread
  cases hread with
  | done program _ => exact .inl ⟨program, rfl, rfl⟩
  | failed he => exact .inr ⟨_, _, rfl, rfl, he⟩
  | exhausted => exact absurd rfl hdone

/-! ## Where the errors are -/

/-- The error is about the token at the index. -/
def SyntaxError.Names (e : SyntaxError) (tokens : List Token) (i : Nat) : Prop :=
  ∃ t, tokens[i]? = some t ∧ e.At (tokens.take i) t

namespace Token

theorem exists_marked_eq (tokens : List Token) : ∃ more, marked tokens = tokens ++ more := by
  unfold marked
  split
  · next h => exact ⟨_, by rw [List.getLast?_eq_none_iff.1 h, List.nil_append]⟩
  split
  · exact ⟨[], (List.append_nil tokens).symm⟩
  · exact ⟨_, rfl⟩

theorem marked_alike {tokens tokens' : List Token} (h : List.Forall₂ Token.Alike tokens tokens') :
    List.Forall₂ Token.Alike (marked tokens) (marked tokens') := by
  induction h with
  | nil => exact .cons ⟨rfl, fun _ => rfl⟩ .nil
  | @cons t t' ts ts' ht hts ih =>
    cases hts with
    | nil =>
      by_cases hk : t.kind = .endOfInput
      · simpa [marked, hk, ht.kind] using ht
      · simpa [marked, hk, ht.kind] using ⟨ht, rfl, fun _ => rfl⟩
    | cons hu hts =>
      rw [marked_cons_cons, marked_cons_cons]
      exact .cons ht ih

end Token

namespace Program

open Reader

variable {tokens tokens' before before' : List Token} {t : Token} {e e' : SyntaxError}

/-- An error that a token decides is the error of every list with this token there. -/
theorem ofTokens_behind (hne : ∀ u ∈ before, u.kind ≠ .endOfInput)
    (hsame : ∀ n marker rest, next marker rest = t →
      (Grammar.statements n .endOfInput marker (before ++ rest)).Refuses e)
    (behind : List Token) : ofTokens (before ++ t :: behind) = .error e := by
  obtain ⟨more, hmarked⟩ := Token.exists_marked_eq (before ++ t :: behind)
  rw [List.append_assoc, List.cons_append] at hmarked
  obtain ⟨rest, hahead, hnext⟩ := Token.splitAtEnd_of_marked hmarked hne
  apply ofTokens_of_refuses
  rw [hahead]
  exact hsame _ _ rest hnext

/-- Alike tokens that can be completed to a program do not go beyond a token that decides an
error. -/
theorem length_before_le (halike : List.Forall₂ Token.Alike tokens tokens')
    {behind behind' : List Token} (htokens : tokens = before ++ t :: behind)
    (htokens' : tokens' = before' ++ behind')
    (hne : ∀ u ∈ before, u.kind ≠ .endOfInput)
    (hsame : ∀ n marker rest, next marker rest = t →
      (Grammar.statements n .endOfInput marker (before ++ rest)).Refuses e)
    (hcompletes : Completes (· = .endOfInput) (fun n => Grammar.statements n .endOfInput) before') :
    before'.length ≤ before.length := by
  by_contra hlt
  obtain ⟨more, program, hmore⟩ := hcompletes
  have hok : ofTokens (before' ++ more) = .ok program :=
    ofTokens_of_yields fun marker hm n => by simpa using hmore marker [] hm n
  -- The tokens up to the offending one, and behind them what completes the other list.
  have hhead : List.Forall₂ Token.Alike (before ++ [t]) (before'.take (before.length + 1)) := by
    have htake := List.forall₂_take (before.length + 1) halike
    rw [htokens, htokens', List.take_append_of_le_length (Nat.lt_of_not_le hlt),
      List.take_length_add_append] at htake
    exact htake
  let rest := before'.drop (before.length + 1) ++ more
  have hwhole : List.Forall₂ Token.Alike (before ++ t :: rest) (before' ++ more) := by
    have happend := List.rel_append hhead (List.forall₂_same.2 fun u (_ : u ∈ rest) => .refl u)
    simpa [rest, ← List.append_assoc _ _ more] using happend
  rcases ofTokens_alike hwhole with ⟨program', hprogram, -⟩ | ⟨_, _, -, herror, -⟩
  · rw [ofTokens_behind hne hsame] at hprogram
    cases hprogram
  · rw [hok] at herror
    cases herror

/-- The errors of alike lists of tokens are about tokens at the same index. -/
theorem error_place (halike : List.Forall₂ Token.Alike tokens tokens')
    (he : ofTokens tokens = .error e) (he' : ofTokens tokens' = .error e') :
    ∃ i, e.Names (Token.marked tokens) i ∧ e'.Names (Token.marked tokens') i := by
  obtain ⟨before, t, behind, hmarked, hne, hat, hsame, hcompletes⟩ := exists_before he
  obtain ⟨before', t', behind', hmarked', hne', hat', hsame', hcompletes'⟩ := exists_before he'
  have hmarks := Token.marked_alike halike
  have hlength : before.length = before'.length :=
    Nat.le_antisymm
      (length_before_le (hmarks.flip.imp fun _ _ h => h.symm) hmarked' hmarked hne' hsame'
        hcompletes)
      (length_before_le hmarks hmarked hmarked' hne hsame hcompletes')
  refine ⟨before.length, ⟨t, by simp [hmarked], by simpa [hmarked] using hat⟩,
    ⟨t', by simp [hmarked', hlength], by simpa [hmarked', hlength] using hat'⟩⟩

end Program

end DialectScript
