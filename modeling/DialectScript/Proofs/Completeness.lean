import DialectScript.Proofs.Reading
import DialectScript.Proofs.Writable

/-!
# What is spelled is read

**Theorem (`Program.ofTokens_writing`).** A fully punctuated program is read back: any list of
tokens that spells it, with or without an end marker behind, is read as that very program.

A reader stops at the first token that cannot carry its phrase on, so what it makes of a phrase
depends on the token behind (`Tier.Stops`). The proof is an induction on the spelling
(`Phrase.Reads`, `Clause.Reads`), and every statement in it holds for each bound of the readers,
as long as that is not exhausted. Operators and suffixes group to the left while their readers
loop, so a phrase of such a level is said to be read if the reader, given its tokens, does
whatever the loop does that has the phrase in hand.
-/

namespace DialectScript

/-! ## Tokens that carry an expression on -/

/-- The level of the phrases that a token behind an expression can make of it. -/
def Kind.tier? : Kind → Option Tier
  | .dot | .leftBracket | .leftParen => some .suffixed
  | .star | .slash | .percent => some .product
  | .plus | .minus => some .sum
  | .equalEqual | .notEqual | .less | .greater | .lessEqual | .greaterEqual => some .comparison
  | .andAnd => some .conjunction
  | .orOr => some .disjunction
  | .equals => some .assignment
  | _ => none

theorem Operator.tier?_kind (operator : Operator) : operator.kind.tier? = some operator.tier := by
  cases operator <;> rfl

/-- No phrase of the level goes on with a token of the kind. -/
def Tier.Stops (tier : Tier) (kind : Kind) : Prop :=
  ∀ t, kind.tier? = some t → t.rank < tier.rank

namespace Tier

variable {tier : Tier} {kind : Kind}

theorem Stops.tighter (h : tier.Stops kind) : tier.tighter.Stops kind :=
  fun t ht => Nat.lt_of_lt_of_le (h t ht) tier.rank_le_tighter

theorem stops_of_tier?_eq_none (h : kind.tier? = none) : tier.Stops kind := by
  intro t ht
  rw [h] at ht
  cases ht

/-- The operand in front of an operator ends there. -/
theorem stops_operator (operator : Operator) : operator.tier.tighter.Stops operator.kind := by
  intro t ht
  rw [operator.tier?_kind] at ht
  cases ht
  cases operator <;> decide

/-- The target of an assignment ends in front of the equals sign. -/
theorem object_stops_equals : object.Stops .equals := by
  intro t ht
  cases ht
  decide

/-- No token carries a primary expression on without making it a suffixed one. -/
theorem primary_stops (kind : Kind) : primary.Stops kind := by
  intro t ht
  cases kind <;> cases ht <;> decide

theorem Stops.ne_equals (h : assignment.Stops kind) : kind ≠ .equals := by
  rintro rfl
  exact absurd (h _ rfl) (by decide)

/-- A chain of a level has no further operator in front of a token that stops it. -/
theorem Stops.level_eq_none (h : tier.Stops kind) {level : Operator.Level}
    {tighter : List Operator.Level} (ht : tier.IsChain) (hl : tier.levels = level :: tighter) :
    level kind = none := by
  cases hop : level kind with
  | none => rfl
  | some operator =>
    obtain ⟨rfl, rfl⟩ := ((levels_eq_cons ht hl).2.2 kind operator).1 hop
    exact absurd (h _ operator.tier?_kind) (Nat.lt_irrefl _)

end Tier

open Reader Grammar

variable {marker : Token} {ts us rest : List Token} {tier : Tier} {e : Expr}

/-! ## Loops -/

/-- What a reader of a chain level does with a phrase of the level in hand: it goes on with
operators, or with suffixes. -/
def Tier.loop (tier : Tier) (n : Nat) (e : Expr) : Reader Expr :=
  match tier.levels with
  | [] => suffixes n e
  | level :: tighter => chain n level tighter e

/-- A loop ends in front of a token that stops it. -/
theorem Tier.loop_yields (ht : tier.IsChain) (hs : tier.Stops (next marker rest).kind) (n : Nat) :
    (tier.loop n e marker rest).Yields e rest := by
  rw [Tier.loop]
  cases hl : tier.levels with
  | nil =>
    obtain rfl := levels_eq_nil ht hl
    cases n with
    | zero => exact yields_exhausted
    | succ n =>
      dsimp only
      rw [suffixes]
      apply yields_peek
      cases hk : (next marker rest).kind with
      | dot | leftBracket | leftParen => exact absurd (hs _ (by rw [hk]; rfl)) (by decide)
      | _ => exact yields_pure
  | cons level tighter =>
    cases n with
    | zero => exact yields_exhausted
    | succ n =>
      dsimp only
      rw [chain]
      apply yields_peek
      rw [hs.level_eq_none ht hl]
      exact yields_pure

/-! ## Phrases that are read -/

/-- The readers read the phrase off its tokens, if no token stands behind them that carries it
on. -/
def Phrase.Reads : Phrase → List Token → Prop
  | .expression .assignment e, ts => ∀ marker rest,
    Tier.assignment.Stops (next marker rest).kind →
      ∀ n, (Grammar.expression n marker (ts ++ rest)).Yields e rest
  | .expression .object e, ts => ∀ marker rest,
    Tier.object.Stops (next marker rest).kind →
      ∀ n, (unassigned n marker (ts ++ rest)).Yields e rest
  | .expression .primary e, ts => ∀ marker rest n,
    (primary n marker (ts ++ rest)).Yields e rest
  | .expression tier e, ts => ∀ marker rest e' rest',
    tier.tighter.Stops (next marker rest).kind →
      (∀ n, (tier.loop n e marker rest).Yields e' rest') →
        ∀ n, (binary n tier.levels marker (ts ++ rest)).Yields e' rest'
  | .entry p, ts => ∀ marker rest,
    Tier.assignment.Stops (next marker rest).kind → (next marker rest).kind ≠ .colon →
      ∀ n, (property n marker (ts ++ rest)).Yields p rest

theorem Phrase.reads_chain (ht : tier.IsChain) :
    (Phrase.expression tier e).Reads ts ↔ ∀ marker rest e' rest',
      tier.tighter.Stops (next marker rest).kind →
        (∀ n, (tier.loop n e marker rest).Yields e' rest') →
          ∀ n, (binary n tier.levels marker (ts ++ rest)).Yields e' rest' := by
  cases tier <;> first | exact Iff.rfl | exact absurd ht (by decide)

namespace Phrase.Reads

/-- A phrase of a chain level, read as an operand. -/
theorem operand (h : (Phrase.expression tier e).Reads ts) (ht : tier.IsChain)
    (hs : tier.Stops (next marker rest).kind) (n : Nat) :
    (Grammar.binary n tier.levels marker (ts ++ rest)).Yields e rest :=
  (reads_chain ht).1 h marker rest e rest hs.tighter (Tier.loop_yields ht hs) n

theorem looser_assignment (h : (Phrase.expression .object e).Reads ts) :
    (Phrase.expression .assignment e).Reads ts := by
  intro marker rest hs n
  cases n with
  | zero => exact yields_exhausted
  | succ n =>
    rw [Grammar.expression]
    refine yields_bind (h marker rest hs.tighter n) ?_
    exact yields_decline hs.ne_equals yields_pure

theorem looser_object (h : (Phrase.expression .disjunction e).Reads ts)
    (hspells : (Phrase.expression .disjunction e).Spells ts) :
    (Phrase.expression .object e).Reads ts := by
  intro marker rest hs n
  obtain ⟨t, us, rfl, ht⟩ := hspells.starts
  cases n with
  | zero => exact yields_exhausted
  | succ n =>
    rw [unassigned]
    apply yields_decline
    · rintro (hbrace : t.kind = .leftBrace)
      rw [hbrace] at ht
      simp [Phrase.starters, Tier.starters, Tier.rank] at ht
    · exact h.operand (by decide) hs.tighter n

/-- A chain of a level may be a single operand of the next. -/
theorem looser_chain (h : (Phrase.expression tier.tighter e).Reads ts) (ht : tier.IsChain)
    {level : Operator.Level} {tighter : List Operator.Level}
    (hl : tier.levels = level :: tighter) : (Phrase.expression tier e).Reads ts := by
  refine (reads_chain ht).2 fun marker rest e' rest' hs hloop n => ?_
  obtain ⟨ht', rfl, -⟩ := Tier.levels_eq_cons ht hl
  simp only [Tier.loop, hl] at hloop ⊢
  cases n with
  | zero => exact yields_exhausted
  | succ n =>
    rw [Grammar.binary]
    exact yields_bind (h.operand ht' hs n) (hloop n)

theorem looser_suffixed (h : (Phrase.expression .primary e).Reads ts) :
    (Phrase.expression .suffixed e).Reads ts := by
  intro marker rest e' rest' _ hloop n
  cases n with
  | zero => exact yields_exhausted
  | succ n =>
    show (suffixed n marker (ts ++ rest)).Yields e' rest'
    cases n with
    | zero => exact yields_exhausted
    | succ n =>
      rw [suffixed]
      exact yields_bind (h marker rest n) (hloop n)

theorem looser (h : (Phrase.expression tier.tighter e).Reads ts)
    (hspells : (Phrase.expression tier.tighter e).Spells ts) :
    (Phrase.expression tier e).Reads ts := by
  cases tier with
  | assignment => exact h.looser_assignment
  | object => exact h.looser_object hspells
  | suffixed => exact h.looser_suffixed
  | primary => exact h
  | disjunction | conjunction | comparison | sum | product => exact h.looser_chain (by decide) rfl

/-- An operator extends the operand in front of it, and the loop goes on with the longer one. -/
theorem binary {operator : Operator} {t : Token} {left right : Expr}
    (hleft : (Phrase.expression operator.tier left).Reads ts) (ht : t.kind = operator.kind)
    (hright : (Phrase.expression operator.tier.tighter right).Reads us) :
    (Phrase.expression operator.tier (.binary operator left right)).Reads (ts ++ t :: us) := by
  have hchain : operator.tier.IsChain := by cases operator <;> decide
  obtain ⟨level, tighter, hl⟩ : ∃ level tighter, operator.tier.levels = level :: tighter := by
    cases operator <;> exact ⟨_, _, rfl⟩
  obtain ⟨htighter, rfl, hlevel⟩ := Tier.levels_eq_cons hchain hl
  -- Behind the left operand, the loop takes the operator and the right one and goes on as before.
  refine (reads_chain hchain).2 fun marker rest e' rest' hs hloop n => ?_
  rw [List.append_assoc]
  refine (reads_chain hchain).1 hleft marker _ e' rest' ?_ (fun n => ?_) n
  · show operator.tier.tighter.Stops t.kind
    rw [ht]
    exact Tier.stops_operator operator
  · simp only [Tier.loop, hl] at hloop ⊢
    cases n with
    | zero => exact yields_exhausted
    | succ n =>
      rw [chain]
      apply yields_peek
      have hop : level t.kind = some operator := (hlevel _ _).2 ⟨rfl, ht.symm⟩
      simp only [List.cons_append, next, hop]
      exact yields_take (yields_bind (hright.operand htighter hs n) (hloop n))

/-- A suffix extends the expression in front of it, and the loop goes on with the longer one. -/
theorem suffix {base : Expr} (hbase : (Phrase.expression .suffixed base).Reads ts)
    (hsuffix : ∀ marker rest e' rest', (∀ n, (suffixes n e marker rest).Yields e' rest') →
      ∀ n, (suffixes (n + 1) base marker (us ++ rest)).Yields e' rest') :
    (Phrase.expression .suffixed e).Reads (ts ++ us) := by
  intro marker rest e' rest' _ hloop n
  rw [List.append_assoc]
  refine hbase marker _ e' rest' (Tier.primary_stops _) (fun n => ?_) n
  cases n with
  | zero => exact yields_exhausted
  | succ n => exact hsuffix marker rest e' rest' hloop n

theorem dot {d key : Token} {base : Expr} (hbase : (Phrase.expression .suffixed base).Reads ts)
    (hd : d.kind = .dot) (hkey : key.kind = .identifier) :
    (Phrase.expression .suffixed (.member base (.identifier key.text) .dot)).Reads
      (ts ++ [d, key]) := by
  refine hbase.suffix fun marker rest e' rest' hloop n => ?_
  rw [suffixes]
  apply yields_peek
  simp only [List.cons_append, List.nil_append, next, hd]
  exact yields_take (yields_name hkey (hloop n))

theorem bracket {l r : Token} {base index : Expr}
    (hbase : (Phrase.expression .suffixed base).Reads ts) (hl : l.kind = .leftBracket)
    (hindex : (Phrase.expression .assignment index).Reads us) (hr : r.kind = .rightBracket) :
    (Phrase.expression .suffixed (.member base index .bracket)).Reads
      (ts ++ l :: (us ++ [r])) := by
  refine hbase.suffix fun marker rest e' rest' hloop n => ?_
  rw [suffixes]
  apply yields_peek
  simp only [List.cons_append, List.append_assoc, List.nil_append, next, hl]
  apply yields_take
  refine yields_bind (hindex marker (r :: rest) ?_ n) (yields_expect hr (hloop n))
  exact Tier.stops_of_tier?_eq_none (by rw [next, hr]; rfl)

end Phrase.Reads

/-! ## Lists -/

/-- The items of a list are read, each with a comma or the closing token behind it. -/
theorem items_yields {α : Type} {close : Kind} (item : Nat → Reader α)
    (more : Nat → Reader (List α)) (hzero : more 0 = exhausted)
    (hsucc : ∀ n, more (n + 1) = items close (item n) (more n)) {as : List (α × List Token)}
    (has : ∀ a ∈ as, (∃ t us, a.2 = t :: us ∧ t.kind ≠ close) ∧ ∀ marker rest,
      ((next marker rest).kind = .comma ∨ (next marker rest).kind = close) →
        ∀ n, (item n marker (a.2 ++ rest)).Yields a.1 rest)
    (hsep : Separated (as.map (·.2)) ts) (hclose : close ≠ .comma)
    (hrest : (next marker rest).kind = close) (n : Nat) :
    (more n marker (ts ++ rest)).Yields (as.map (·.1)) rest := by
  generalize hpieces : as.map (·.2) = pieces at hsep
  -- An item is told from the end of the list by its first token, which is never the closing one.
  induction hsep generalizing as n with
  | none =>
    obtain rfl := List.map_eq_nil_iff.1 hpieces
    cases n with
    | zero => rw [hzero]; exact yields_exhausted
    | succ n =>
      rw [hsucc, items]
      apply yields_peek
      rw [List.nil_append, if_pos hrest]
      exact yields_pure
  | last piece =>
    obtain ⟨a, rfl⟩ := List.length_eq_one_iff.1 (by simpa using congrArg List.length hpieces)
    obtain rfl : a.2 = piece := by simpa using hpieces
    obtain ⟨⟨t, us, hts, ht⟩, ha⟩ := has a (by simp)
    cases n with
    | zero => rw [hzero]; exact yields_exhausted
    | succ n =>
      rw [hsucc, items]
      apply yields_peek
      rw [if_neg (by rw [hts]; exact ht)]
      refine yields_bind (ha marker rest (.inr hrest) n) ?_
      exact yields_decline (by rw [hrest]; exact hclose) yields_pure
  | @comma piece pieces ts c hc _ ih =>
    obtain ⟨a, as, rfl, rfl, htail⟩ := List.map_eq_cons_iff.1 hpieces
    obtain ⟨⟨t, us, hts, ht⟩, ha⟩ := has a (by simp)
    cases n with
    | zero => rw [hzero]; exact yields_exhausted
    | succ n =>
      rw [hsucc, items, List.append_assoc]
      apply yields_peek
      rw [if_neg (by rw [hts]; exact ht)]
      refine yields_bind (ha marker (c :: (ts ++ rest)) (.inl hc) n) (yields_accept hc ?_)
      exact yields_bind (ih (fun b hb => has b (by simp [hb])) n htail) yields_pure

theorem parameters_yields {params : List Token} (hparams : ∀ p ∈ params, p.kind = .identifier)
    (hsep : Separated (params.map ([·])) ts) (hrest : (next marker rest).kind = .rightParen)
    (n : Nat) : (parameters n marker (ts ++ rest)).Yields (params.map (·.text)) rest := by
  generalize hpieces : params.map ([·]) = pieces at hsep
  induction hsep generalizing params n with
  | none =>
    obtain rfl := List.map_eq_nil_iff.1 hpieces
    cases n with
    | zero => exact yields_exhausted
    | succ n =>
      rw [parameters]
      apply yields_peek
      rw [List.nil_append, if_pos hrest]
      exact yields_pure
  | last piece =>
    obtain ⟨p, rfl⟩ := List.length_eq_one_iff.1 (by simpa using congrArg List.length hpieces)
    obtain rfl : [p] = piece := by simpa using hpieces
    have hp := hparams p (by simp)
    cases n with
    | zero => exact yields_exhausted
    | succ n =>
      rw [parameters]
      apply yields_peek
      simp only [List.cons_append, List.nil_append, next, hp, reduceCtorEq, if_true, if_false]
      apply yields_take
      exact yields_decline (by rw [hrest]; decide) yields_pure
  | @comma piece pieces ts c hc _ ih =>
    obtain ⟨p, params, rfl, rfl, htail⟩ := List.map_eq_cons_iff.1 hpieces
    have hp := hparams p (by simp)
    cases n with
    | zero => exact yields_exhausted
    | succ n =>
      rw [parameters]
      apply yields_peek
      simp only [List.cons_append, List.nil_append, next, hp, reduceCtorEq, if_true, if_false]
      apply yields_take
      apply yields_accept hc
      exact yields_bind (ih (fun q hq => hparams q (by simp [hq])) n htail) yields_pure

/-! ## Expressions -/

/-- The closing token of a list does not carry an item on, and no item starts with it. -/
structure Closes (close : Kind) : Prop where
  tier? : close.tier? = none
  ne_comma : close ≠ .comma
  not_starter : close ∉ Tier.assignment.starters

theorem expressions_yields {close : Kind} (hclose : Closes close)
    {items : List (Expr × List Token)}
    (hspells : ∀ i ∈ items, (Phrase.expression .assignment i.1).Spells i.2)
    (hreads : ∀ i ∈ items, (Phrase.expression .assignment i.1).Reads i.2)
    (hsep : Separated (items.map (·.2)) ts) (hrest : (next marker rest).kind = close) (n : Nat) :
    (expressions n close marker (ts ++ rest)).Yields (items.map (·.1)) rest := by
  refine items_yields expression (fun n => expressions n close) rfl
    (fun n => expressions_eq_items n close) (fun i hi => ⟨?_, ?_⟩) hsep hclose.ne_comma hrest n
  · obtain ⟨t, us, hts, ht⟩ := (hspells i hi).starts
    exact ⟨t, us, hts, fun h => hclose.not_starter (h ▸ ht)⟩
  · intro marker rest hk n
    refine hreads i hi marker rest (Tier.stops_of_tier?_eq_none ?_) n
    rcases hk with hk | hk <;> rw [hk]
    · rfl
    · exact hclose.tier?

/-- An object literal is read whatever stands behind it. -/
theorem object_yields {l r : Token} {items : List (Property Expr × List Token)}
    (hl : l.kind = .leftBrace) (hspells : ∀ i ∈ items, (Phrase.entry i.1).Spells i.2)
    (hreads : ∀ i ∈ items, (Phrase.entry i.1).Reads i.2)
    (hsep : Separated (items.map (·.2)) ts) (hr : r.kind = .rightBrace) (n : Nat) :
    (unassigned n marker (l :: (ts ++ [r]) ++ rest)).Yields (.object (items.map (·.1))) rest := by
  have hentries : ∀ n, (properties n marker (ts ++ r :: rest)).Yields (items.map (·.1))
      (r :: rest) := by
    refine items_yields property properties rfl properties_eq_items
      (fun i hi => ⟨?_, ?_⟩) hsep (by decide) hr
    · obtain ⟨t, us, hts, ht⟩ := (hspells i hi).starts
      exact ⟨t, us, hts, by rw [List.mem_singleton.1 ht]; decide⟩
    · intro marker rest hk n
      refine hreads i hi marker rest ?_ ?_ n
      · exact Tier.stops_of_tier?_eq_none (by rcases hk with hk | hk <;> rw [hk] <;> rfl)
      · rcases hk with hk | hk <;> rw [hk] <;> decide
  cases n with
  | zero => exact yields_exhausted
  | succ n =>
    rw [unassigned]
    simp only [List.cons_append, List.append_assoc, List.nil_append]
    apply yields_accept hl
    exact yields_bind (hentries n) (yields_expect hr yields_pure)

namespace Phrase.Reads

theorem parens {l r : Token} (hl : l.kind = .leftParen)
    (he : (Phrase.expression .assignment e).Reads ts) (hr : r.kind = .rightParen) :
    (Phrase.expression .primary e).Reads (l :: (ts ++ [r])) := by
  intro marker rest n
  cases n with
  | zero => exact yields_exhausted
  | succ n =>
    rw [primary]
    apply yields_peek
    simp only [List.cons_append, List.append_assoc, List.nil_append, next, hl]
    apply yields_take
    refine yields_bind (he marker (r :: rest) ?_ n) (yields_expect hr yields_pure)
    exact Tier.stops_of_tier?_eq_none (by rw [next, hr]; rfl)

theorem array {l r : Token} {items : List (Expr × List Token)} (hl : l.kind = .leftBracket)
    (hspells : ∀ i ∈ items, (Phrase.expression .assignment i.1).Spells i.2)
    (hreads : ∀ i ∈ items, (Phrase.expression .assignment i.1).Reads i.2)
    (hsep : Separated (items.map (·.2)) ts) (hr : r.kind = .rightBracket) :
    (Phrase.expression .primary (.array (items.map (·.1)))).Reads (l :: (ts ++ [r])) := by
  intro marker rest n
  cases n with
  | zero => exact yields_exhausted
  | succ n =>
    rw [primary]
    apply yields_peek
    simp only [List.cons_append, List.append_assoc, List.nil_append, next, hl]
    apply yields_take
    have hclose : (next marker (r :: rest)).kind = .rightBracket := hr
    exact yields_bind (expressions_yields ⟨rfl, by decide, by decide⟩ hspells hreads hsep hclose n)
      (yields_expect hr yields_pure)

theorem call {l r : Token} {base : Expr} {items : List (Expr × List Token)}
    (hbase : (Phrase.expression .suffixed base).Reads ts) (hl : l.kind = .leftParen)
    (hspells : ∀ i ∈ items, (Phrase.expression .assignment i.1).Spells i.2)
    (hreads : ∀ i ∈ items, (Phrase.expression .assignment i.1).Reads i.2)
    (hsep : Separated (items.map (·.2)) us) (hr : r.kind = .rightParen) :
    (Phrase.expression .suffixed (.call base (items.map (·.1)))).Reads
      (ts ++ l :: (us ++ [r])) := by
  refine hbase.suffix fun marker rest e' rest' hloop n => ?_
  rw [suffixes]
  apply yields_peek
  simp only [List.cons_append, List.append_assoc, List.nil_append, next, hl]
  apply yields_take
  have hclose : (next marker (r :: rest)).kind = .rightParen := hr
  exact yields_bind (expressions_yields ⟨rfl, by decide, by decide⟩ hspells hreads hsep hclose n)
    (yields_expect hr (hloop n))

theorem object {l r : Token} {items : List (Property Expr × List Token)}
    (hl : l.kind = .leftBrace) (hspells : ∀ i ∈ items, (Phrase.entry i.1).Spells i.2)
    (hreads : ∀ i ∈ items, (Phrase.entry i.1).Reads i.2)
    (hsep : Separated (items.map (·.2)) ts) (hr : r.kind = .rightBrace) :
    (Phrase.expression .object (.object (items.map (·.1)))).Reads (l :: (ts ++ [r])) :=
  fun _ _ _ n => object_yields hl hspells hreads hsep hr n

theorem assign {t : Token} {target value : Expr}
    (htarget : (Phrase.expression .object target).Reads ts) (ht : t.kind = .equals)
    (hvalue : (Phrase.expression .assignment value).Reads us) :
    (Phrase.expression .assignment (.assign target value)).Reads (ts ++ t :: us) := by
  intro marker rest hs n
  cases n with
  | zero => exact yields_exhausted
  | succ n =>
    rw [Grammar.expression, List.append_assoc]
    refine yields_bind (htarget marker (t :: (us ++ rest)) ?_ n) (yields_accept ht ?_)
    · rw [next, ht]
      exact Tier.object_stops_equals
    · exact yields_bind (hvalue marker rest hs n) yields_pure

theorem shorthand {key : Token} (hkey : key.kind = .identifier) :
    (Phrase.entry (.shorthand key.text)).Reads [key] := by
  intro marker rest _ hcolon n
  cases n with
  | zero => exact yields_exhausted
  | succ n =>
    rw [property]
    exact yields_name hkey (yields_decline hcolon yields_pure)

theorem pair {key c : Token} {value : Expr} (hkey : key.kind = .identifier)
    (hc : c.kind = .colon) (hvalue : (Phrase.expression .assignment value).Reads ts) :
    (Phrase.entry (.pair key.text value)).Reads (key :: c :: ts) := by
  intro marker rest hs _ n
  cases n with
  | zero => exact yields_exhausted
  | succ n =>
    rw [property]
    apply yields_name hkey
    apply yields_accept hc
    exact yields_bind (hvalue marker rest hs n) yields_pure

/-- A primary expression of one token. -/
theorem leaf {t : Token} (h : ∀ n marker rest,
    (primary (n + 1) marker (t :: rest)).Yields e rest) :
    (Phrase.expression .primary e).Reads [t] := by
  intro marker rest n
  cases n with
  | zero => exact yields_exhausted
  | succ n => exact h n marker rest

end Phrase.Reads

/-- Every phrase is read off the tokens that spell it. -/
theorem Phrase.Spells.reads {p : Phrase} (h : p.Spells ts) : p.Reads ts := by
  -- Every way to spell a phrase has its own lemma above; only the leaves are read on the spot.
  induction h with
  | looser h ih => exact ih.looser h
  | identifier ht | string ht =>
    refine .leaf fun n marker rest => ?_
    rw [primary]
    apply yields_peek
    simp only [next, ht]
    exact yields_take yields_pure
  | number ht hx =>
    refine .leaf fun n marker rest => ?_
    rw [primary]
    apply yields_peek
    simp only [next, ht]
    apply yields_take
    rw [hx]
    exact yields_pure
  | parens hl _ hr ih => exact .parens hl ih hr
  | array hl h hsep hr ih => exact .array hl h ih hsep hr
  | dot _ hd hkey ih => exact ih.dot hd hkey
  | bracket _ hl _ hr ih ih' => exact ih.bracket hl ih' hr
  | call _ hl h hsep hr ih ih' => exact ih.call hl h ih' hsep hr
  | binary _ ht _ ih ih' => exact ih.binary ht ih'
  | object hl h hsep hr ih => exact .object hl h ih hsep hr
  | assign _ ht _ ih ih' => exact ih.assign ht ih'
  | shorthand hkey => exact .shorthand hkey
  | pair hkey hc _ ih => exact .pair hkey hc ih

/-! ## Statements -/

/-- The readers read the clause off its tokens; a statement without its semicolon is read in
front of one, and a sequence in front of a closing brace or the end. -/
def Clause.Reads : Clause → List Token → Prop
  | .statement _ s, ts => ∀ marker rest n, (Grammar.statement n marker (ts ++ rest)).Yields s rest
  | .bare _ s, ts => ∀ marker rest, (next marker rest).kind = .semicolon →
    ∀ n, (bareStatement n marker (ts ++ rest)).Yields s rest
  | .block ss, ts => ∀ marker rest n, (Grammar.block n marker (ts ++ rest)).Yields ss rest
  | .body _ ss, ts => ∀ marker rest n, (Grammar.body n marker (ts ++ rest)).Yields ss rest
  | .sequence ss, ts => ∀ marker rest stop, (next marker rest).kind = stop →
    stop ∉ Stmt.starters → ∀ n, (statements n stop marker (ts ++ rest)).Yields ss rest

/-- A statement that starts as an expression does is one. -/
theorem bareStatement_eq_expression {n : Nat}
    (h : (next marker ts).kind ∈ Tier.assignment.starters) :
    bareStatement (n + 1) marker ts =
      (do let value ← Grammar.expression n; return .expression value : Reader Stmt) marker ts := by
  rw [bareStatement, bind_apply, peek]
  dsimp only
  generalize (next marker ts).kind = kind at h ⊢
  simp only [Tier.starters, Tier.rank, Nat.zero_le, if_true, List.mem_cons, List.not_mem_nil,
    or_false] at h
  rcases h with rfl | rfl | rfl | rfl | rfl | rfl <;> rfl

namespace Clause.Reads

variable {s : Stmt} {edge : Edge}

theorem terminated {t : Token} (h : (Clause.bare edge s).Reads ts) (ht : t.kind = .semicolon) :
    (Clause.statement .closed s).Reads (ts ++ [t]) := by
  intro marker rest n
  cases n with
  | zero => exact yields_exhausted
  | succ n =>
    rw [Grammar.statement, List.append_assoc]
    exact yields_bind (h marker (t :: rest) ht n) (yields_accept ht yields_pure)

theorem letAlone {k name : Token} (hk : k.kind = .letKeyword) (hname : name.kind = .identifier) :
    (Clause.bare .closed (.declare .mutable name.text none)).Reads [k, name] := by
  intro marker rest hrest n
  cases n with
  | zero => exact yields_exhausted
  | succ n =>
    rw [bareStatement]
    apply yields_peek
    simp only [List.cons_append, List.nil_append, next, hk]
    apply yields_take
    apply yields_expect hname
    exact yields_decline (by rw [hrest]; decide) yields_pure

theorem declare {mutability : Mutability} {k name t : Token} (hk : k.kind = mutability.keyword)
    (hname : name.kind = .identifier) (ht : t.kind = .equals)
    (hinit : (Phrase.expression .assignment e).Reads ts) :
    (Clause.bare .closed (.declare mutability name.text (some e))).Reads
      (k :: name :: t :: ts) := by
  intro marker rest hrest n
  cases n with
  | zero => exact yields_exhausted
  | succ n =>
    have hread : ((do
        let init ← Grammar.expression n
        return .declare mutability name.text (some init) : Reader Stmt) marker
          (ts ++ rest)).Yields (.declare mutability name.text (some e)) rest :=
      yields_bind (hinit marker rest (Tier.stops_of_tier?_eq_none (by rw [hrest]; rfl)) n)
        yields_pure
    rw [bareStatement]
    apply yields_peek
    cases mutability <;>
      simp only [List.cons_append, next, hk, Mutability.keyword] <;>
      exact yields_take (yields_expect hname (yields_accept ht hread))

theorem function {k name l r : Token} {params : List Token} {body : List Stmt}
    (hk : k.kind = .functionKeyword) (hname : name.kind = .identifier) (hl : l.kind = .leftParen)
    (hparams : ∀ p ∈ params, p.kind = .identifier) (hsep : Separated (params.map ([·])) ts)
    (hr : r.kind = .rightParen) (hbody : (Clause.block body).Reads us) :
    (Clause.bare .closed (.function name.text (params.map (·.text)) body)).Reads
      (k :: name :: l :: (ts ++ r :: us)) := by
  intro marker rest _ n
  cases n with
  | zero => exact yields_exhausted
  | succ n =>
    have hclose : (next marker (r :: (us ++ rest))).kind = .rightParen := hr
    rw [bareStatement]
    apply yields_peek
    simp only [List.cons_append, List.append_assoc, next, hk]
    apply yields_take
    apply yields_name hname
    apply yields_expect hl
    refine yields_bind (parameters_yields hparams hsep hclose n) (yields_expect hr ?_)
    exact yields_bind (hbody marker rest n) yields_pure

/-- A brace ends the condition in front of it. -/
theorem condition_yields (hcondition : (Phrase.expression .assignment e).Reads ts)
    {ss : List Stmt} (hbody : (Clause.body edge ss).Spells .full us) (n : Nat) :
    (Grammar.expression n marker (ts ++ (us ++ rest))).Yields e (us ++ rest) := by
  refine hcondition marker _ (Tier.stops_of_tier?_eq_none ?_) n
  cases hbody with
  | braced hblock =>
    cases hblock with
    | block hl _ _ => rw [List.cons_append, next, hl]; rfl
  | single hstyle _ _ => cases hstyle

theorem branch {k : Token} {thenBody : List Stmt} (hk : k.kind = .ifKeyword)
    (hcondition : (Phrase.expression .assignment e).Reads ts)
    (hspells : (Clause.body edge thenBody).Spells .full us)
    (hthen : (Clause.body edge thenBody).Reads us) :
    (Clause.bare { edge with dangling := true } (.branch e thenBody none)).Reads
      (k :: (ts ++ us)) := by
  intro marker rest hrest n
  cases n with
  | zero => exact yields_exhausted
  | succ n =>
    rw [bareStatement]
    apply yields_peek
    simp only [List.cons_append, List.append_assoc, next, hk]
    apply yields_take
    refine yields_bind (condition_yields hcondition hspells n) ?_
    refine yields_bind (hthen marker rest n) ?_
    exact yields_decline (by rw [hrest]; decide) yields_pure

theorem branchElse {k t : Token} {edge' : Edge} {thenBody elseBody : List Stmt}
    {vs : List Token} (hk : k.kind = .ifKeyword)
    (hcondition : (Phrase.expression .assignment e).Reads ts)
    (hspells : (Clause.body edge thenBody).Spells .full us)
    (hthen : (Clause.body edge thenBody).Reads us) (ht : t.kind = .elseKeyword)
    (helse : (Clause.body edge' elseBody).Reads vs) :
    (Clause.bare edge' (.branch e thenBody (some elseBody))).Reads
      (k :: (ts ++ (us ++ t :: vs))) := by
  intro marker rest _ n
  cases n with
  | zero => exact yields_exhausted
  | succ n =>
    rw [bareStatement]
    apply yields_peek
    simp only [List.cons_append, List.append_assoc, next, hk]
    apply yields_take
    refine yields_bind (condition_yields hcondition hspells n) ?_
    refine yields_bind (hthen marker _ n) (yields_accept ht ?_)
    exact yields_bind (helse marker rest n) yields_pure

theorem loop {k : Token} {body : List Stmt} (hk : k.kind = .whileKeyword)
    (hcondition : (Phrase.expression .assignment e).Reads ts)
    (hspells : (Clause.body edge body).Spells .full us)
    (hbody : (Clause.body edge body).Reads us) :
    (Clause.bare edge (.loop e body)).Reads (k :: (ts ++ us)) := by
  intro marker rest _ n
  cases n with
  | zero => exact yields_exhausted
  | succ n =>
    rw [bareStatement]
    apply yields_peek
    simp only [List.cons_append, List.append_assoc, next, hk]
    apply yields_take
    refine yields_bind (condition_yields hcondition hspells n) ?_
    exact yields_bind (hbody marker rest n) yields_pure

theorem importPath {k path : Token} (hk : k.kind = .importKeyword) (hpath : path.kind = .string) :
    (Clause.bare .closed (.importPath path.text)).Reads [k, path] := by
  intro marker rest _ n
  cases n with
  | zero => exact yields_exhausted
  | succ n =>
    rw [bareStatement]
    apply yields_peek
    simp only [List.cons_append, List.nil_append, next, hk]
    exact yields_take (yields_expect hpath yields_pure)

theorem expression (hspells : (Phrase.expression .assignment e).Spells ts)
    (h : (Phrase.expression .assignment e).Reads ts) :
    (Clause.bare .closed (.expression e)).Reads ts := by
  intro marker rest hrest n
  cases n with
  | zero => exact yields_exhausted
  | succ n =>
    obtain ⟨t, us, rfl, ht⟩ := hspells.starts
    rw [bareStatement_eq_expression (by exact ht)]
    refine yields_bind (h marker rest (Tier.stops_of_tier?_eq_none ?_) n) yields_pure
    rw [hrest]
    rfl

theorem block {l r : Token} {ss : List Stmt} (hl : l.kind = .leftBrace)
    (h : (Clause.sequence ss).Reads ts) (hr : r.kind = .rightBrace) :
    (Clause.block ss).Reads (l :: (ts ++ [r])) := by
  intro marker rest n
  cases n with
  | zero => exact yields_exhausted
  | succ n =>
    rw [Grammar.block]
    simp only [List.cons_append, List.append_assoc, List.nil_append]
    apply yields_expect hl
    exact yields_bind (h marker (r :: rest) .rightBrace hr (by decide) n)
      (yields_expect hr yields_pure)

theorem braced {ss : List Stmt} (hspells : (Clause.block ss).Spells .full ts)
    (h : (Clause.block ss).Reads ts) : (Clause.body .closed ss).Reads ts := by
  intro marker rest n
  cases n with
  | zero => exact yields_exhausted
  | succ n =>
    cases hspells with
    | block hl _ _ =>
      rw [Grammar.body]
      apply yields_peek
      rw [if_pos (by exact hl)]
      exact h marker rest n

theorem empty : (Clause.sequence []).Reads [] := by
  intro marker rest stop hrest _ n
  cases n with
  | zero => exact yields_exhausted
  | succ n =>
    rw [statements]
    apply yields_peek
    rw [List.nil_append, if_pos (.inl hrest)]
    exact yields_pure

theorem cons {ss : List Stmt} (hspells : (Clause.statement edge s).Spells .full ts)
    (h : (Clause.statement edge s).Reads ts) (hss : (Clause.sequence ss).Reads us) :
    (Clause.sequence (s :: ss)).Reads (ts ++ us) := by
  intro marker rest stop hrest hstop n
  cases n with
  | zero => exact yields_exhausted
  | succ n =>
    obtain ⟨_, ⟨⟩⟩ | ⟨t, vs, rfl, ht⟩ := hspells.starts
    rw [statements, List.append_assoc]
    apply yields_peek
    have hgo : ¬ ((next marker (t :: vs ++ (us ++ rest))).kind = stop ∨
        (next marker (t :: vs ++ (us ++ rest))).kind = .endOfInput) := by
      rintro (h | h)
      · exact hstop (h ▸ ht)
      · rw [show t.kind = .endOfInput from h] at ht
        exact absurd ht (show Kind.endOfInput ∉ Stmt.starters by decide)
    rw [if_neg hgo]
    exact yields_bind (h marker _ n) (yields_bind (hss marker rest stop hrest hstop n) yields_pure)

end Clause.Reads

/-- Every clause is read off the tokens that spell it with full punctuation. -/
theorem Clause.Spells.reads {c : Clause} (h : c.Spells .full ts) : c.Reads ts := by
  induction h with
  | unterminated hstyle _ _ | single hstyle _ _ _ => cases hstyle
  | terminated _ _ ht ih => exact ih.terminated ht
  | letAlone hk hname => exact .letAlone hk hname
  | declare hk hname ht he => exact .declare hk hname ht he.reads
  | function hk hname hl hparams hsep hr _ ih => exact .function hk hname hl hparams hsep hr ih
  | branch hk he h ih => exact .branch hk he.reads h ih
  | branchElse hk he h _ ht _ ih ih' => exact .branchElse hk he.reads h ih ht ih'
  | loop hk he h ih => exact .loop hk he.reads h ih
  | importPath hk hpath => exact .importPath hk hpath
  | expression he => exact .expression he he.reads
  | block hl _ hr ih => exact .block hl ih hr
  | braced h ih => exact .braced h ih
  | empty => exact .empty
  | next h _ ih ih' => exact .cons h ih ih'

/-! ## Programs -/

/-- A program is read if its readings end well with every bound that is not exhausted, whether or
not an end marker stands behind its tokens. -/
theorem Program.ofTokens_append {program : Program} {behind : List Token}
    (hne : ∀ t ∈ ts, t.kind ≠ .endOfInput) (hbehind : ∀ t ∈ behind.head?, t.kind = .endOfInput)
    (h : ∀ marker, marker.kind = .endOfInput →
      ∀ n, (statements n .endOfInput marker ts).Yields program []) :
    Program.ofTokens (ts ++ behind) = .ok program := by
  have hahead := Token.splitAtEnd_fst_append hne hbehind
  have hm := Token.splitAtEnd_marker (ts ++ behind)
  have hread := ofTokens_reading (ts ++ behind)
  rw [Program.ofTokens]
  generalize Token.splitAtEnd (ts ++ behind) = split at hahead hm hread ⊢
  obtain ⟨ahead, marker⟩ := split
  obtain rfl : ahead = ts := hahead
  dsimp only at hread ⊢
  rw [(h marker hm _).resolve_left hread]

theorem Program.ofTokens_of_spells {program : Program} {behind : List Token}
    (h : program.Spells .full ts) (hbehind : ∀ t ∈ behind.head?, t.kind = .endOfInput) :
    Program.ofTokens (ts ++ behind) = .ok program := by
  refine ofTokens_append h.ne_end hbehind fun marker hm n => ?_
  rw [← List.append_nil ts]
  exact Clause.Spells.reads h marker [] .endOfInput hm (by decide) n

/-- A program can be spelled with full punctuation exactly if it is writable, and however it is
spelled, it is read back: with any texts of keywords, any places, any commas at the ends of lists
and any parentheses. -/
theorem Program.ofTokens_writing (program : Program) :
    (program.Writable ↔ ∃ ts, program.Spells .full ts) ∧
      ∀ ts behind, program.Spells .full ts → (∀ t ∈ behind.head?, t.kind = .endOfInput) →
        Program.ofTokens (ts ++ behind) = .ok program :=
  ⟨program.writable_iff, fun _ _ h hbehind => ofTokens_of_spells h hbehind⟩

/-- In `x = (a + b) * c(d,);` the parentheses are needed and the last comma is not. -/
theorem Program.ofTokens_writing_product :
    let t (kind : Kind) (text : String) : Token := ⟨kind, text, ⟨0, 0⟩⟩
    let tokens := [t .identifier "x", t .equals "=", t .leftParen "(", t .identifier "a",
      t .plus "+", t .identifier "b", t .rightParen ")", t .star "*", t .identifier "c",
      t .leftParen "(", t .identifier "d", t .comma ",", t .rightParen ")", t .semicolon ";"]
    let product : Expr := .binary .multiply (.binary .add (.identifier "a") (.identifier "b"))
      (.call (.identifier "c") [.identifier "d"])
    let program : Program := [.expression (.assign (.identifier "x") product)]
    program.Spells .full tokens ∧
      Program.ofTokens (tokens ++ [t .endOfInput ""]) = .ok program := by
  intro t tokens product program
  have name (text : String) (tier : Tier) :
      (Phrase.expression tier (.identifier text)).Spells [t .identifier text] := by
    have primary := @Phrase.Spells.identifier (t .identifier text) rfl
    exact primary.loosen (by cases tier <;> decide)
  have sum := @Phrase.Spells.binary .add (t .plus "+") _ _ _ _ (name "a" _) rfl (name "b" _)
  have parens := (sum.loosen (by decide)).parens (l := t .leftParen "(") (r := t .rightParen ")")
    rfl rfl
  have list := Separated.comma [t .identifier "d"] (c := t .comma ",") rfl .none
  have call := @Phrase.Spells.call (t .leftParen "(") (t .rightParen ")") _
    [(.identifier "d", [t .identifier "d"])] _ _ (name "c" _) rfl
    (by simpa using name "d" .assignment) list rfl
  have product := @Phrase.Spells.binary .multiply (t .star "*") _ _ _ _
    (parens.loosen (by decide)) rfl call
  have assign := (name "x" .object).assign (t := t .equals "=") rfl (product.loosen (by decide))
  have spells : program.Spells .full tokens :=
    .next (.terminated (.expression assign) rfl rfl) .empty
  exact ⟨spells, (Program.ofTokens_writing program).2 tokens _ spells (by decide)⟩

end DialectScript
