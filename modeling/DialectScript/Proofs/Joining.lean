import DialectScript.Proofs.Lookahead
import Mathlib.Data.List.Forall2
import Mathlib.Data.List.TakeWhile

/-!
# Programs in a row

Behind a statement a reader looks for more of it: an operator, a call, an equals sign, a semicolon,
an `else`, and so on through every body without braces that ends there. A statement starts with none
of these, except that a parenthesis or bracket at its start may also be that of a call or an index.

**Theorem (`Program.ofTokens_join`).** Two programs that are read from two lists of tokens are read
in a row from the lists in a row, if the first list is empty or ends with a semicolon, or if the
second starts neither with a parenthesis nor with a bracket. So it is for any number of lists.

What a list of tokens is read as depends on the token behind it through `Portion.Parses` alone, and
`Portion.Parses.change_ahead` says which tokens may be put in its place.
-/

namespace DialectScript

/-- Nothing in front can be called or indexed, or nothing behind starts as a call or an index. -/
def Detached (ts us : List Token) : Prop :=
  ts = [] ∨ EndsWith .semicolon ts ∨
    ∀ t ∈ us.head?, t.kind ≠ .leftParen ∧ t.kind ≠ .leftBracket

/-! ## The token behind a statement -/

/-- Behind a statement of a sequence stands the first token of the next one, or the token that
closes the sequence. -/
def Kind.Follows (kind : Kind) : Prop := kind ∈ Stmt.starters ∨ Grammar.Closes kind

namespace Kind.Follows

variable {kind : Kind}

theorem ne_of_not_mem {kind' : Kind} (h : kind.Follows) (hstart : kind' ∉ Stmt.starters)
    (hclose : ¬ Grammar.Closes kind') : kind ≠ kind' := by
  rintro rfl
  exact h.elim hstart hclose

theorem ne_else (h : kind.Follows) : kind ≠ .elseKeyword :=
  h.ne_of_not_mem (by decide) (by rintro (h | h) <;> cases h)

theorem ne_semicolon (h : kind.Follows) : kind ≠ .semicolon :=
  h.ne_of_not_mem (by decide) (by rintro (h | h) <;> cases h)

/-- A statement starts with a parenthesis or a bracket, or with a token that carries no expression
on. -/
theorem stops (h : kind.Follows) (hparen : kind ≠ .leftParen) (hbracket : kind ≠ .leftBracket) :
    Tier.assignment.Stops kind := by
  rcases h with hstart | hclose
  · intro tier ht
    revert hstart
    cases kind <;> cases ht <;> first | contradiction | decide
  · exact hclose.stops

end Kind.Follows

namespace Portion.Parses

variable {p : Portion} {ts us : List Token} {k k' : Kind}

theorem ne_nil (h : p.Parses ts k) (hp : ∀ ss, p ≠ .sequence ss) : ts ≠ [] := by
  obtain ⟨ss, rfl⟩ | ⟨t, us, rfl, -⟩ := h.starts
  · exact absurd rfl (hp ss)
  · simp

/-- In a sequence, what stands in front of some of its statements follows a statement. -/
theorem follows {ss : List Stmt} (h : (sequence ss).Parses ts k) : (k.ahead ts).Follows := by
  cases h with
  | empty hk => exact .inr hk
  | next hs _ =>
    obtain ⟨_, ⟨⟩⟩ | ⟨t, us, rfl, ht⟩ := hs.starts
    exact .inl ht

/-- A declaration or expression statement without its semicolon ends in front of a token that does
not carry its last expression on. -/
theorem ends_of_spells {p : Phrase} (h : p.Spells ts)
    (hends : EndsWith .semicolon ts ∨ Tier.assignment.Stops k') : k'.Ends ts := by
  refine .inl (hends.resolve_left ?_)
  rintro ⟨t, ht, hk⟩
  exact h.kind_ne (by decide) t (List.mem_of_getLast? ht) hk

/-- In place of the token behind a portion that is no sequence there may stand any other that is no
`else` and no semicolon, if it carries no expression on or the portion ends with a semicolon. -/
theorem change_ahead (h : p.Parses ts k) (hp : ∀ ss, p ≠ .sequence ss)
    (helse : k' ≠ .elseKeyword) (hsemi : k' ≠ .semicolon)
    (hends : EndsWith .semicolon ts ∨ Tier.assignment.Stops k') : p.Parses ts k' := by
  -- The last part ends as the statement does, and it is what leaves something open.
  induction h with
  | unterminated _ _ ih => exact .unterminated (ih nofun hends) hsemi
  | terminated hbare ht => exact .terminated hbare ht
  | letAlone hk hname _ =>
    refine .letAlone hk hname ?_
    rintro rfl
    rcases hends with hends | hstops
    · rw [endsWith_cons (by simp), endsWith_singleton, hname] at hends
      cases hends
    · exact absurd (hstops .assignment rfl) (by decide)
  | declare hk hname ht hinit _ =>
    obtain ⟨u, us, rfl, -⟩ := hinit.starts
    rw [endsWith_cons (by simp), endsWith_cons (by simp), endsWith_cons (by simp)] at hends
    exact .declare hk hname ht hinit (ends_of_spells hinit hends)
  | @function _ _ _ r _ _ _ us _ hk hname hl hparams hsep hr hbody ih =>
    refine .function hk hname hl hparams hsep hr (ih nofun ?_)
    have hne : r :: us ≠ [] := by simp
    rwa [endsWith_cons (by simp), endsWith_cons (by simp), endsWith_cons (by simp),
      endsWith_append hne, endsWith_cons (hbody.ne_nil nofun)] at hends
  | branch hk hcondition hcends hthen _ ih =>
    have hne := hthen.ne_nil nofun
    rw [endsWith_cons (by simp [hne]), endsWith_append hne] at hends
    refine .branch hk hcondition ?_ (ih nofun hends) helse
    obtain ⟨u, us, rfl⟩ := List.exists_cons_of_ne_nil hne
    exact hcends
  | @branchElse _ t _ _ _ _ us vs _ hk hcondition hcends hthen ht helseBody _ ih =>
    have hne := helseBody.ne_nil nofun
    rw [endsWith_cons (by simp), endsWith_append (by simp), endsWith_append (by simp),
      endsWith_cons hne] at hends
    exact .branchElse hk hcondition hcends hthen ht (ih nofun hends)
  | loop hk hcondition hcends hbody ih =>
    have hne := hbody.ne_nil nofun
    rw [endsWith_cons (by simp [hne]), endsWith_append hne] at hends
    refine .loop hk hcondition ?_ (ih nofun hends)
    obtain ⟨u, us, rfl⟩ := List.exists_cons_of_ne_nil hne
    exact hcends
  | importPath hk hpath => exact .importPath hk hpath
  | expression he _ => exact .expression he (ends_of_spells he hends)
  | block hl hss hr => exact .block hl hss hr
  | braced _ ih => exact .braced (ih nofun hends)
  | single _ ht ih => exact .single (ih nofun hends) ht
  | empty | next => exact absurd rfl (hp _)

/-! ## Sequences in a row -/

/-- The last statement of a sequence is read alike in front of what follows a statement. -/
theorem statement_of_follows {s : Stmt} (h : (statement s).Parses ts k) (hk' : k'.Follows)
    (hends : EndsWith .semicolon ts ∨ k' ≠ .leftParen ∧ k' ≠ .leftBracket) :
    (statement s).Parses ts k' :=
  h.change_ahead nofun hk'.ne_else hk'.ne_semicolon
    (hends.imp_right fun ⟨hparen, hbracket⟩ => hk'.stops hparen hbracket)

/-- Two sequences that are apart are one sequence. The induction is on the first one, and it is only
its last statement in front of which the next token changes. -/
theorem append {ss ss' : List Stmt} (h : (sequence ss).Parses ts k)
    (h' : (sequence ss').Parses us k') (hdetached : Detached ts us) :
    (sequence (ss ++ ss')).Parses (ts ++ us) k' := by
  generalize hp : sequence ss = p at h
  induction h generalizing ss with
  | empty _ =>
    cases hp
    exact h'
  | @next s others front back k hs hothers _ ih =>
    cases hp
    have hne := hs.ne_nil nofun
    rw [List.append_assoc]
    -- Only the last statement of the first list has another token behind it now.
    cases back with
    | nil =>
      refine .next (statement_of_follows hs h'.follows ?_) (ih (.inl rfl) rfl)
      rw [List.append_nil] at hdetached
      rcases hdetached with hnil | hends | hhead
      · exact absurd hnil hne
      · exact .inl hends
      · refine .inr ?_
        cases us with
        | nil => rcases h'.closes with hk | hk <;> simp [Kind.ahead, hk]
        | cons u us => exact hhead u rfl
    | cons t back =>
      refine .next hs (ih ?_ rfl)
      rcases hdetached with hnil | hends | hhead
      · exact absurd hnil (by simp)
      · exact .inr (.inl ((endsWith_append (by simp)).1 hends))
      · exact .inr (.inr hhead)
  | _ => cases hp

/-- Sequences that are apart from all those in front of them are one sequence. -/
theorem append_flatten {ss : List Stmt} {lines : List (List Token)} {programs : List Program}
    (h : (sequence ss).Parses ts k)
    (hlines : List.Forall₂ (fun line program => (sequence program).Parses line k) lines programs)
    (hdetached : ∀ front line back, lines = front ++ line :: back →
      Detached (ts ++ front.flatten) line) :
    (sequence (ss ++ programs.flatten)).Parses (ts ++ lines.flatten) k := by
  induction hlines generalizing ts ss with
  | nil => simpa using h
  | @cons line program lines programs hline _ ih =>
    have hjoined := h.append hline (by simpa using hdetached [] line lines rfl)
    have hrest := ih hjoined fun front line' back heq => by
      simpa using hdetached (line :: front) line' back (by rw [heq, List.cons_append])
    simpa using hrest

end Portion.Parses

/-! ## Programs in a row -/

namespace Program

variable {tokens tokens' : List Token} {program program' : Program}

/-- Tokens without an end marker are read as a program exactly if all of them parse as it. -/
theorem ofTokens_eq_ok_of_ne_end (hne : ∀ t ∈ tokens, t.kind ≠ .endOfInput) :
    ofTokens tokens = .ok program ↔ (Portion.sequence program).Parses tokens .endOfInput := by
  have hall : tokens.takeWhile (·.kind ≠ .endOfInput) = tokens :=
    List.takeWhile_eq_self_iff.2 fun t ht => decide_eq_true (hne t ht)
  rw [ofTokens_eq_ok_iff, hall]

/-- Two lists of tokens that are read as programs and are apart are read as the one program behind
the other. -/
theorem ofTokens_append_detached (hne : ∀ t ∈ tokens, t.kind ≠ .endOfInput)
    (h : ofTokens tokens = .ok program) (h' : ofTokens tokens' = .ok program')
    (hdetached : Detached tokens tokens') :
    ofTokens (tokens ++ tokens') = .ok (program ++ program') := by
  rw [ofTokens_eq_ok_of_ne_end hne] at h
  rw [ofTokens_eq_ok_iff] at h' ⊢
  rw [List.takeWhile_append_of_pos fun t ht => decide_eq_true (hne t ht)]
  refine h.append h' (hdetached.imp_right (.imp_right fun hhead t ht => hhead t ?_))
  cases tokens' with
  | nil => cases ht
  | cons u us =>
    rw [List.takeWhile_cons] at ht
    split at ht
    · exact ht
    · cases ht

/-- Lists of tokens, each of them read as a program and apart from all those in front of it, are
read in a row as the programs in a row. -/
theorem ofTokens_flatten_detached {lines : List (List Token)} {programs : List Program}
    (hne : ∀ line ∈ lines, ∀ t ∈ line, t.kind ≠ .endOfInput)
    (h : List.Forall₂ (fun line program => ofTokens line = .ok program) lines programs)
    (hdetached : ∀ front line back, lines = front ++ line :: back → Detached front.flatten line) :
    ofTokens lines.flatten = .ok programs.flatten := by
  have hall : ∀ t ∈ lines.flatten, t.kind ≠ .endOfInput := by
    simpa using fun t line hline => hne line hline t
  have hlines : List.Forall₂
      (fun line program => (Portion.sequence program).Parses line .endOfInput) lines programs := by
    refine List.Forall₂.imp ?_ ((List.forall₂_and_left _ _).2 ⟨hne, h⟩)
    exact fun line program ⟨hline, hread⟩ => (ofTokens_eq_ok_of_ne_end hline).1 hread
  rw [ofTokens_eq_ok_of_ne_end hall]
  exact Portion.Parses.append_flatten (.empty (.inr rfl)) hlines hdetached

/-- Two lists of tokens that are read as programs are read in a row as the one program behind the
other if they are apart. So are the lines of a text, each of them apart from all those in front of
it. -/
theorem ofTokens_join :
    (∀ (tokens tokens' : List Token) (program program' : Program),
      (∀ t ∈ tokens, t.kind ≠ .endOfInput) → ofTokens tokens = .ok program →
      ofTokens tokens' = .ok program' → Detached tokens tokens' →
      ofTokens (tokens ++ tokens') = .ok (program ++ program')) ∧
    ∀ (lines : List (List Token)) (programs : List Program),
      (∀ line ∈ lines, ∀ t ∈ line, t.kind ≠ .endOfInput) →
      List.Forall₂ (fun line program => ofTokens line = .ok program) lines programs →
      (∀ front line back, lines = front ++ line :: back → Detached front.flatten line) →
      ofTokens lines.flatten = .ok programs.flatten :=
  ⟨fun _ _ _ _ hne h h' hdetached => ofTokens_append_detached hne h h' hdetached,
    fun _ _ hne h hdetached => ofTokens_flatten_detached hne h hdetached⟩

/-- Behind `while a if b c` the assignment `d = e;` is no part of the branch or the loop, and the
array literal in the line behind it is no index. -/
theorem ofTokens_join_loop :
    let t (kind : Kind) (text : String) : Token := ⟨kind, text, ⟨0, 0⟩⟩
    let tokens := [t .whileKeyword "while", t .identifier "a", t .ifKeyword "if",
      t .identifier "b", t .identifier "c"]
    let tokens' := [t .identifier "d", t .equals "=", t .identifier "e", t .semicolon ";"]
    let tokens'' := [t .leftBracket "[", t .rightBracket "]"]
    let name (text : String) : Stmt := .expression (.identifier text)
    let program : Program := [
      .loop (.identifier "a") [.branch (.identifier "b") [name "c"] none],
      .expression (.assign (.identifier "d") (.identifier "e"))]
    ofTokens (tokens ++ tokens') = .ok program ∧
      ofTokens [tokens, tokens', tokens''].flatten =
        .ok (program ++ [.expression (.array [])]) := by
  intro t tokens tokens' tokens'' name program
  have h : ofTokens tokens =
      .ok [.loop (.identifier "a") [.branch (.identifier "b") [name "c"] none]] := rfl
  have h' : ofTokens tokens' =
      .ok [.expression (.assign (.identifier "d") (.identifier "e"))] := rfl
  have h'' : ofTokens tokens'' = .ok [.expression (.array [])] := rfl
  obtain ⟨htwo, hlines⟩ := ofTokens_join
  refine ⟨htwo _ _ _ _ (by decide) h h' (.inr (.inr (by decide))), ?_⟩
  refine hlines _ _ (by decide) (.cons h (.cons h' (.cons h'' .nil)))
    fun front line back hsplit => ?_
  match front with
  | [] => exact .inl rfl
  | [_] =>
    cases hsplit
    exact .inr (.inr (by decide))
  | [_, _] =>
    cases hsplit
    exact .inr (.inl ⟨_, rfl, rfl⟩)
  | _ :: _ :: _ :: front => cases front <;> cases hsplit

end Program

end DialectScript
