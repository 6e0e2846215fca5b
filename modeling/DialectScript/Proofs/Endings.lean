import DialectScript.Proofs.Completeness
import DialectScript.Proofs.Soundness

/-!
# Where an expression ends

A reader goes on with an expression for as long as the next token carries it on, so what it has
taken ends in front of a token that does not. There is one exception: behind the closing brace of an
object literal only an equals sign is looked at. In `{} + 1` the object literal is an expression of
its own.

* `Kind.Ends` — an expression that is spelled by some tokens ends in front of a token of a kind.
* `Grammar.halts` — **the readers leave an expression only where it ends**.
* `Phrase.Spells.reads_of_ends` — where an expression ends, it is read off the tokens that spell it.
-/

namespace DialectScript

/-- The last of the tokens is of the kind. -/
def EndsWith (kind : Kind) (ts : List Token) : Prop := ∃ t ∈ ts.getLast?, t.kind = kind

section EndsWith

variable {kind : Kind} {t u : Token} {ts us : List Token}

@[simp] theorem endsWith_nil : ¬ EndsWith kind [] := nofun

@[simp] theorem endsWith_singleton : EndsWith kind [t] ↔ t.kind = kind := by
  simp [EndsWith]

theorem endsWith_append (hne : us ≠ []) : EndsWith kind (ts ++ us) ↔ EndsWith kind us := by
  rw [EndsWith, EndsWith, List.getLast?_append, List.getLast?_eq_some_getLast hne, Option.some_or]

theorem endsWith_cons (hne : us ≠ []) : EndsWith kind (t :: us) ↔ EndsWith kind us := by
  rw [← List.singleton_append, endsWith_append hne]

@[simp] theorem endsWith_append_singleton : EndsWith kind (ts ++ [t]) ↔ t.kind = kind := by
  rw [endsWith_append (List.cons_ne_nil t []), endsWith_singleton]

@[simp] theorem endsWith_cons_append_singleton :
    EndsWith kind (t :: (ts ++ [u])) ↔ u.kind = kind := by
  rw [← List.cons_append, endsWith_append_singleton]

/-- What stands in front does not matter. -/
theorem EndsWith.append_left (h : EndsWith kind us) (ts : List Token) :
    EndsWith kind (ts ++ us) := by
  refine (endsWith_append ?_).2 h
  rintro rfl
  exact endsWith_nil h

end EndsWith

/-- An expression that the tokens spell ends in front of a token of the kind: the token does not
carry it on, or the expression ends in an object literal, which an equals sign only carries on. -/
def Kind.Ends (kind : Kind) (ts : List Token) : Prop :=
  Tier.assignment.Stops kind ∨ kind ≠ .equals ∧ EndsWith .rightBrace ts

/-! ## Levels that stop -/

namespace Tier

variable {kind : Kind}

/-- A token that makes a chain of an operand is an operator of the chain's level. -/
theorem exists_operator {tier : Tier} (h : kind.tier? = some tier) (ht : tier.IsChain)
    (hne : tier ≠ .suffixed) :
    ∃ operator ∈ Operator.all, operator.tier = tier ∧ operator.kind = kind := by
  revert ht hne
  cases kind <;> cases h <;> decide

/-- Between a level of chains and the next tighter one there is none. -/
theorem eq_or_rank_lt {tier tier' : Tier} (ht : tier.IsChain)
    (h : tier'.rank < tier.tighter.rank) : tier' = tier ∨ tier'.rank < tier.rank := by
  revert h ht
  cases tier <;> cases tier' <;> decide

/-- A token that carries on no operand of a level, and is no operator of it, carries on no chain of
the level. -/
theorem Stops.looser {tier : Tier} {level : Operator.Level} {tighter : List Operator.Level}
    (ht : tier.IsChain) (hl : tier.levels = level :: tighter) (h : tier.tighter.Stops kind)
    (hlevel : level kind = none) : tier.Stops kind := by
  intro tier' hkind
  refine (eq_or_rank_lt ht (h tier' hkind)).resolve_left ?_
  rintro rfl
  have hne : tier' ≠ .suffixed := by
    rintro rfl
    cases hl
  obtain ⟨operator, -, hoperator⟩ := exists_operator hkind ht hne
  rw [((levels_eq_cons ht hl).2.2 kind operator).2 hoperator] at hlevel
  cases hlevel

/-- Between the chains of operators and assignments, no token carries an expression on. -/
theorem Stops.object_of_disjunction (h : disjunction.Stops kind) : object.Stops kind := by
  intro t ht
  have hlt := h t ht
  cases kind <;> cases ht <;> revert hlt <;> decide

theorem Stops.assignment_of_object (h : object.Stops kind) (hne : kind ≠ .equals) :
    assignment.Stops kind := by
  intro t ht
  have hlt := h t ht
  cases kind <;> cases ht <;> first | exact absurd rfl hne | revert hlt; decide

theorem suffixed_stops (hd : kind ≠ .dot) (hb : kind ≠ .leftBracket) (hp : kind ≠ .leftParen) :
    suffixed.Stops kind := by
  intro t ht
  cases kind <;> cases ht <;> first | contradiction | decide

end Tier

/-! ## Readers stop where an expression ends -/

namespace Grammar

open Reader

variable {marker : Token} {n : Nat}

/-- With this bound, the readers of expressions go on for as long as a token carries the expression
on. -/
structure Halts (marker : Token) (n : Nat) : Prop where
  expression : ∀ ts, (expression n marker ts).Takes ts fun _ us rest =>
    (next marker rest).kind.Ends us
  unassigned : ∀ ts, (unassigned n marker ts).Takes ts fun _ us rest =>
    Tier.object.Stops (next marker rest).kind ∨ EndsWith .rightBrace us
  binary : ∀ tier : Tier, tier.IsChain → ∀ ts, (binary n tier.levels marker ts).Takes ts
    fun _ _ rest => tier.Stops (next marker rest).kind
  chain : ∀ (tier : Tier) level tighter, tier.IsChain → tier.levels = level :: tighter →
    ∀ left ts, tier.tighter.Stops (next marker ts).kind →
      (chain n level tighter left marker ts).Takes ts fun _ _ rest =>
        tier.Stops (next marker rest).kind
  suffixed : ∀ ts, (suffixed n marker ts).Takes ts fun _ _ rest =>
    Tier.suffixed.Stops (next marker rest).kind
  suffixes : ∀ base ts, (suffixes n base marker ts).Takes ts fun _ _ rest =>
    Tier.suffixed.Stops (next marker rest).kind

namespace Halts

theorem expression_succ (hm : marker.kind = .endOfInput) (ih : Halts marker n) (ts : List Token) :
    (Grammar.expression (n + 1) marker ts).Takes ts fun _ us rest =>
      (next marker rest).kind.Ends us := by
  rw [Grammar.expression]
  refine takes_bind (ih.unassigned ts) fun target us rest htarget => ?_
  apply takes_accept hm (by decide)
  · intro ht
    refine takes_bind (ih.expression _) fun value vs rest' hvalue => takes_pure ?_
    rw [List.append_nil]
    refine hvalue.imp_right (And.imp_right fun hbrace => ?_)
    exact (hbrace.append_left [_]).append_left us
  · intro hne
    apply takes_pure
    rw [List.append_nil]
    rcases htarget with hstops | hbrace
    · exact .inl (hstops.assignment_of_object hne)
    · exact .inr ⟨hne, hbrace⟩

theorem unassigned_succ (hm : marker.kind = .endOfInput) (ih : Halts marker n)
    (ts : List Token) :
    (Grammar.unassigned (n + 1) marker ts).Takes ts fun _ us rest =>
      Tier.object.Stops (next marker rest).kind ∨ EndsWith .rightBrace us := by
  rw [Grammar.unassigned]
  apply takes_accept hm (by decide)
  · intro _
    refine takes_bind ((sound hm n).properties _) fun entries us rest _ => ?_
    apply takes_expect hm (by decide)
    intro hr
    apply takes_pure
    rw [endsWith_cons_append_singleton]
    exact .inr hr
  · intro _
    exact takes_mono (ih.binary .disjunction (by decide) ts) fun _ _ _ h =>
      .inl h.object_of_disjunction

theorem binary_succ (ih : Halts marker n) (tier : Tier) (ht : tier.IsChain) (ts : List Token) :
    (Grammar.binary (n + 1) tier.levels marker ts).Takes ts fun _ _ rest =>
      tier.Stops (next marker rest).kind := by
  cases hl : tier.levels with
  | nil =>
    obtain rfl := Tier.levels_eq_nil ht hl
    rw [Grammar.binary]
    exact ih.suffixed ts
  | cons level tighter =>
    obtain ⟨htighter, rfl, -⟩ := Tier.levels_eq_cons ht hl
    rw [Grammar.binary]
    refine takes_bind (ih.binary _ htighter ts) fun left _ rest hstops => ?_
    exact ih.chain tier level _ ht hl left rest hstops

theorem chain_succ (hm : marker.kind = .endOfInput) (ih : Halts marker n) (tier : Tier)
    (level : Operator.Level) (tighter : List Operator.Level) (ht : tier.IsChain)
    (hl : tier.levels = level :: tighter) (left : Expr) (ts : List Token)
    (hstops : tier.tighter.Stops (next marker ts).kind) :
    (Grammar.chain (n + 1) level tighter left marker ts).Takes ts fun _ _ rest =>
      tier.Stops (next marker rest).kind := by
  obtain ⟨htighter, rfl, hlevel⟩ := Tier.levels_eq_cons ht hl
  rw [Grammar.chain]
  apply takes_peek
  cases hop : level (next marker ts).kind with
  | none => exact takes_pure (hstops.looser ht hl hop)
  | some operator =>
    apply takes_take hm (by rw [← ((hlevel _ _).1 hop).2]; cases operator <;> decide)
    refine takes_bind (ih.binary _ htighter _) fun right _ rest hright => ?_
    exact ih.chain tier level _ ht hl (.binary operator left right) rest hright

theorem suffixed_succ (hm : marker.kind = .endOfInput) (ih : Halts marker n) (ts : List Token) :
    (Grammar.suffixed (n + 1) marker ts).Takes ts fun _ _ rest =>
      Tier.suffixed.Stops (next marker rest).kind := by
  rw [Grammar.suffixed]
  exact takes_bind ((sound hm n).primary ts) fun base _ rest _ => ih.suffixes base rest

theorem suffixes_succ (hm : marker.kind = .endOfInput) (ih : Halts marker n) (base : Expr)
    (ts : List Token) :
    (Grammar.suffixes (n + 1) base marker ts).Takes ts fun _ _ rest =>
      Tier.suffixed.Stops (next marker rest).kind := by
  rw [Grammar.suffixes]
  apply takes_peek
  cases hk : (next marker ts).kind with
  | dot =>
    apply takes_take hm (by rw [hk]; decide)
    apply takes_name hm
    intro _
    exact ih.suffixes _ _
  | leftBracket =>
    apply takes_take hm (by rw [hk]; decide)
    refine takes_bind ((sound hm n).expression _) fun index _ rest _ => ?_
    apply takes_expect hm (by decide)
    intro _
    exact ih.suffixes _ _
  | leftParen =>
    apply takes_take hm (by rw [hk]; decide)
    refine takes_bind ((sound hm n).expressions .rightParen _) fun args _ rest _ => ?_
    apply takes_expect hm (by decide)
    intro _
    exact ih.suffixes _ _
  | _ =>
    apply takes_pure
    rw [hk]
    exact Tier.suffixed_stops (by decide) (by decide) (by decide)

end Halts

/-- With any bound, the readers of expressions stop only where the expression ends. -/
theorem halts (hm : marker.kind = .endOfInput) (n : Nat) : Halts marker n := by
  induction n with
  | zero => constructor <;> intros <;> trivial
  | succ n ih =>
    exact
      { expression := ih.expression_succ hm
        unassigned := ih.unassigned_succ hm
        binary := ih.binary_succ
        chain := ih.chain_succ hm
        suffixed := ih.suffixed_succ hm
        suffixes := ih.suffixes_succ hm }

end Grammar

/-! ## What ends is read -/

open Reader

variable {ts : List Token} {e : Expr}

/-- A phrase that ends in a brace is an object literal, or an assignment of a value that ends so,
and is read in front of any token that does not make it the target of an assignment. -/
def Phrase.ReadsBraced : Phrase → List Token → Prop
  | .expression .assignment e, ts => EndsWith .rightBrace ts → ∀ marker rest,
    (next marker rest).kind ≠ .equals →
    ∀ n, (Grammar.expression n marker (ts ++ rest)).Yields e rest
  | .expression .object e, ts => EndsWith .rightBrace ts → ∀ marker rest n,
    (Grammar.unassigned n marker (ts ++ rest)).Yields e rest
  | .expression _ _, ts => ¬ EndsWith .rightBrace ts
  | .entry _, _ => True

theorem Phrase.ReadsBraced.looser {tier : Tier}
    (h : (Phrase.expression tier.tighter e).ReadsBraced ts) :
    (Phrase.expression tier e).ReadsBraced ts := by
  cases tier with
  | assignment =>
    intro hbrace marker rest hne n
    cases n with
    | zero => exact yields_exhausted
    | succ n =>
      rw [Grammar.expression]
      exact yields_bind (h hbrace marker rest n) (yields_decline hne yields_pure)
  | object => exact fun hbrace => absurd hbrace h
  | disjunction | conjunction | comparison | sum | product | suffixed | primary => exact h

/-- Above the object literals, no phrase ends in a brace unless its last part does. -/
theorem Phrase.readsBraced_of_not {tier : Tier} (ht : 2 ≤ tier.rank)
    (h : ¬ EndsWith .rightBrace ts) : (Phrase.expression tier e).ReadsBraced ts := by
  cases tier with
  | assignment | object => exact absurd ht (by decide)
  | _ => exact h

theorem Phrase.Spells.readsBraced {p : Phrase} (h : p.Spells ts) : p.ReadsBraced ts := by
  -- The last token decides: only an object literal ends in a brace of its own.
  induction h with
  | looser _ ih => exact ih.looser
  | identifier ht | number ht _ | string ht =>
    refine readsBraced_of_not (by decide) ?_
    rw [endsWith_singleton, ht]
    decide
  | parens _ _ hr _ | array _ _ _ hr _ =>
    refine readsBraced_of_not (by decide) ?_
    rw [endsWith_cons_append_singleton, hr]
    decide
  | @dot d key base ts _ _ hkey _ =>
    refine readsBraced_of_not (by decide) ?_
    rw [endsWith_append (by simp), endsWith_cons (by simp), endsWith_singleton, hkey]
    decide
  | bracket _ _ _ hr _ _ | call _ _ _ _ hr _ _ =>
    refine readsBraced_of_not (by decide) ?_
    rw [endsWith_append (by simp), endsWith_cons_append_singleton, hr]
    decide
  | @binary operator t left right ts us _ _ hright _ ih =>
    obtain ⟨u, us, rfl, -⟩ := hright.starts
    refine readsBraced_of_not (by cases operator <;> decide) ?_
    rw [endsWith_append (by simp), endsWith_cons (by simp)]
    cases operator <;> exact ih
  | object hl hspells hsep hr _ =>
    exact fun _ marker rest n =>
      object_yields hl hspells (fun i hi => (hspells i hi).reads) hsep hr n
  | @assign t target value ts us htarget ht hvalue _ ih =>
    intro hbrace marker rest hne n
    obtain ⟨u, us, rfl, -⟩ := hvalue.starts
    rw [endsWith_append (by simp), endsWith_cons (by simp)] at hbrace
    cases n with
    | zero => exact yields_exhausted
    | succ n =>
      rw [Grammar.expression, List.append_assoc]
      refine yields_bind (htarget.reads marker _ ?_ n) (yields_accept ht ?_)
      · show Tier.object.Stops t.kind
        rw [ht]
        exact Tier.object_stops_equals
      · exact yields_bind (ih hbrace marker rest hne n) yields_pure
  | shorthand _ | pair _ _ _ _ => trivial

/-- Where an expression ends, it is read off the tokens that spell it. -/
theorem Phrase.Spells.reads_of_ends (h : (Phrase.expression .assignment e).Spells ts)
    (marker : Token) (rest : List Token) (hends : (next marker rest).kind.Ends ts) (n : Nat) :
    (Grammar.expression n marker (ts ++ rest)).Yields e rest := by
  rcases hends with hstops | ⟨hne, hbrace⟩
  · exact h.reads marker rest hstops n
  · exact h.readsBraced hbrace marker rest hne n

end DialectScript
