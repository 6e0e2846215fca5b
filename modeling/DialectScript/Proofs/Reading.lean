import DialectScript.Program.Depth
import DialectScript.Proofs.Spelling

/-!
# What a reading takes

Two views of a reading, each with one lemma for every step a reader can make.

* `Reading.Takes` — what is known of a reading *if* it succeeds: the tokens it took and those it
  left are the tokens it was given, and the value goes with them.
* `Reading.Yields` — the value with which a reading ends, unless its bound is exhausted.
-/

namespace DialectScript

/-! ## The operators of a level -/

namespace Tier

/-- The operators of a level and of all tighter ones, level by level. -/
def levels (tier : Tier) : List Operator.Level := Operator.levels.drop (tier.rank - 2)

/-- The levels of chains of operators, and the level behind them. -/
def IsChain (tier : Tier) : Prop := 2 ≤ tier.rank ∧ tier ≠ .primary

instance (tier : Tier) : Decidable tier.IsChain := inferInstanceAs (Decidable (_ ∧ _))

/-- A chain of operators of one level has operands of the next. -/
theorem levels_eq_cons {tier : Tier} {level : Operator.Level} {tighter : List Operator.Level}
    (ht : tier.IsChain) (h : tier.levels = level :: tighter) :
    tier.tighter.IsChain ∧ tighter = tier.tighter.levels ∧
      ∀ kind operator, level kind = some operator ↔
        operator.tier = tier ∧ operator.kind = kind := by
  cases tier <;> simp [IsChain, rank] at ht <;> cases h <;>
    refine ⟨by simp [IsChain, tighter, rank], rfl, fun kind operator => ⟨fun h => ?_, ?_⟩⟩
  all_goals first
    | dsimp only at h
      split at h <;> cases h <;> exact ⟨rfl, rfl⟩
    | rintro ⟨ho, rfl⟩
      cases operator <;> first | rfl | cases ho

/-- A chain level without operators is that of suffixed expressions. -/
theorem levels_eq_nil {tier : Tier} (ht : tier.IsChain) (h : tier.levels = []) :
    tier = .suffixed := by
  cases tier <;> simp_all [IsChain, rank, levels, Operator.levels]

end Tier

/-! ## The next token -/

namespace Reader

variable {α : Type} {marker : Token} {ts : List Token} {kind : Kind}

/-- A next token of a kind other than the marker's is the first token of the list. -/
theorem eq_next_cons (hm : marker.kind = .endOfInput) (hk : (next marker ts).kind ≠ .endOfInput) :
    ts = next marker ts :: ts.tail := by
  cases ts with
  | nil => exact absurd hm hk
  | cons t ts => rfl

/-- A name is the text of an identifier. -/
theorem name_bind (f : String → Reader α) :
    (name >>= f) = expect .identifier >>= fun t => f t.text := by
  funext marker ts
  simp only [bind_apply, name, expect]
  by_cases h : (next marker ts).kind = .identifier
  · simp only [if_pos h]
    rfl
  · simp only [if_neg h]

end Reader

/-! ## Lists of items -/

/-- A round of reading a list: nothing in front of the closing token, or an item and, behind a
comma, the items that `more` reads. -/
def Reader.items {α : Type} (close : Kind) (item : Reader α) (more : Reader (List α)) :
    Reader (List α) := do
  let token ← peek
  if token.kind = close then return []
  else
    let a ← item
    if ← accept .comma then
      let as ← more
      return a :: as
    else return [a]

theorem Grammar.properties_eq_items (n : Nat) :
    Grammar.properties (n + 1) =
      Reader.items .rightBrace (Grammar.property n) (Grammar.properties n) := by
  rw [Grammar.properties, Reader.items]

theorem Grammar.expressions_eq_items (n : Nat) (close : Kind) :
    Grammar.expressions (n + 1) close =
      Reader.items close (Grammar.expression n) (Grammar.expressions n close) := by
  rw [Grammar.expressions, Reader.items]

/-! ## Values that go with the tokens taken -/

/-- If the reading of `ts` succeeds, it took the tokens before the rest that it left, and `P`
holds of the value, the tokens taken and the rest. -/
def Reading.Takes {α : Type} (r : Reading α) (ts : List Token)
    (P : α → List Token → List Token → Prop) : Prop :=
  match r with
  | .done a rest => ∃ used, ts = used ++ rest ∧ P a used rest
  | .failed _ => True
  | .exhausted => True

namespace Reader

variable {α β : Type} {marker : Token} {ts : List Token} {kind : Kind}
variable {P : α → List Token → List Token → Prop}

theorem takes_bind {p : Reader β} {f : β → Reader α} {Q : β → List Token → List Token → Prop}
    (hp : (p marker ts).Takes ts Q)
    (hf : ∀ b used rest, Q b used rest →
      (f b marker rest).Takes rest fun a us r => P a (used ++ us) r) :
    ((p >>= f) marker ts).Takes ts P := by
  rw [bind_apply]
  cases h : p marker ts with
  | done b rest =>
    rw [h] at hp
    obtain ⟨used, rfl, hQ⟩ := hp
    have h' := hf b used rest hQ
    dsimp only
    cases hr : f b marker rest with
    | done a rest' =>
      rw [hr] at h'
      obtain ⟨us, rfl, hP⟩ := h'
      exact ⟨used ++ us, by rw [List.append_assoc], hP⟩
    | failed error => trivial
    | exhausted => trivial
  | failed error => trivial
  | exhausted => trivial

theorem takes_pure {a : α} (h : P a [] ts) : ((pure a : Reader α) marker ts).Takes ts P :=
  ⟨[], rfl, h⟩

theorem takes_mono {r : Reading α} {Q : α → List Token → List Token → Prop} (h : r.Takes ts Q)
    (hQ : ∀ a used rest, Q a used rest → P a used rest) : r.Takes ts P := by
  cases r with
  | done a rest =>
    obtain ⟨used, hts, hP⟩ := h
    exact ⟨used, hts, hQ a used rest hP⟩
  | failed error => trivial
  | exhausted => trivial

theorem takes_and {r : Reading α} {Q : α → List Token → List Token → Prop} (hP : r.Takes ts P)
    (hQ : r.Takes ts Q) : r.Takes ts fun a used rest => P a used rest ∧ Q a used rest := by
  cases r with
  | done a rest =>
    obtain ⟨used, rfl, hP⟩ := hP
    obtain ⟨used', hused, hQ⟩ := hQ
    obtain rfl := List.append_cancel_right hused
    exact ⟨used, rfl, hP, hQ⟩
  | failed error => trivial
  | exhausted => trivial

/-- The tokens taken and the rest are the tokens given. -/
theorem takes_eq {r : Reading α} (h : r.Takes ts P) :
    r.Takes ts fun a used rest => ts = used ++ rest ∧ P a used rest := by
  cases r with
  | done a rest =>
    obtain ⟨used, hts, hP⟩ := h
    exact ⟨used, hts, hts, hP⟩
  | failed error => trivial
  | exhausted => trivial

theorem takes_peek {f : Token → Reader α} (h : (f (next marker ts) marker ts).Takes ts P) :
    ((peek >>= f) marker ts).Takes ts P := h

/-- A token taken on its own comes first among the tokens taken. -/
theorem takes_tail {r : Reading α} (hm : marker.kind = .endOfInput)
    (hk : (next marker ts).kind ≠ .endOfInput)
    (h : r.Takes ts.tail fun a us r => P a (next marker ts :: us) r) : r.Takes ts P := by
  have hts := eq_next_cons hm hk
  cases r with
  | done a rest =>
    obtain ⟨us, htail, hP⟩ := h
    exact ⟨next marker ts :: us, by rw [List.cons_append, ← htail]; exact hts, hP⟩
  | failed error => trivial
  | exhausted => trivial

theorem takes_take {f : Token → Reader α} (hm : marker.kind = .endOfInput)
    (hk : (next marker ts).kind ≠ .endOfInput)
    (h : (f (next marker ts) marker ts.tail).Takes ts.tail fun a us r =>
      P a (next marker ts :: us) r) :
    ((take >>= f) marker ts).Takes ts P := takes_tail hm hk h

theorem takes_accept {f : Bool → Reader α} (hm : marker.kind = .endOfInput)
    (hk : kind ≠ .endOfInput)
    (ht : (next marker ts).kind = kind →
      (f true marker ts.tail).Takes ts.tail fun a us r => P a (next marker ts :: us) r)
    (hf : (next marker ts).kind ≠ kind → (f false marker ts).Takes ts P) :
    ((accept kind >>= f) marker ts).Takes ts P := by
  rw [bind_apply, accept]
  by_cases h : (next marker ts).kind = kind
  · rw [if_pos h]
    exact takes_tail hm (h ▸ hk) (ht h)
  · rw [if_neg h]
    exact hf h

theorem takes_expect {f : Token → Reader α} (hm : marker.kind = .endOfInput)
    (hk : kind ≠ .endOfInput)
    (h : (next marker ts).kind = kind →
      (f (next marker ts) marker ts.tail).Takes ts.tail fun a us r =>
        P a (next marker ts :: us) r) :
    ((expect kind >>= f) marker ts).Takes ts P := by
  rw [bind_apply, expect]
  by_cases hn : (next marker ts).kind = kind
  · rw [if_pos hn]
    exact takes_tail hm (hn ▸ hk) (h hn)
  · rw [if_neg hn]
    trivial

theorem takes_name {f : String → Reader α} (hm : marker.kind = .endOfInput)
    (h : (next marker ts).kind = .identifier →
      (f (next marker ts).text marker ts.tail).Takes ts.tail fun a us r =>
        P a (next marker ts :: us) r) :
    ((name >>= f) marker ts).Takes ts P := by
  rw [name_bind]
  exact takes_expect hm (by decide) h

/-- A round of reading a list reads a list. -/
theorem takes_items {close : Kind} {item : Reader α} {more : Reader (List α)}
    {Q : α → List Token → Prop} (hm : marker.kind = .endOfInput)
    (hitem : ∀ ts, (item marker ts).Takes ts fun a us _ => Q a us)
    (hmore : ∀ ts, (more marker ts).Takes ts fun as us _ => Listed Q as us) :
    (items close item more marker ts).Takes ts fun as us _ => Listed Q as us := by
  rw [items]
  apply takes_peek
  by_cases hclose : (next marker ts).kind = close
  · rw [if_pos hclose]
    exact takes_pure .nil
  · rw [if_neg hclose]
    refine takes_bind (hitem ts) fun a us rest ha => ?_
    apply takes_accept hm (by decide)
    · intro hc
      refine takes_bind (hmore _) fun as vs rest' has => ?_
      apply takes_pure
      rw [List.append_nil]
      exact .cons ha hc has
    · intro _
      apply takes_pure
      rw [List.append_nil]
      exact .single ha

end Reader

/-! ## The value of a reading -/

/-- The reading ends with the given value and rest, unless its bound is exhausted. -/
def Reading.Yields {α : Type} (r : Reading α) (a : α) (rest : List Token) : Prop :=
  r = .exhausted ∨ r = .done a rest

namespace Reader

variable {α β : Type} {marker : Token} {ts rest : List Token} {kind : Kind} {a : α}

theorem yields_exhausted : (Reading.exhausted : Reading α).Yields a rest := .inl rfl

theorem yields_pure : ((pure a : Reader α) marker ts).Yields a ts := .inr rfl

theorem yields_bind {p : Reader β} {f : β → Reader α} {b : β} {us : List Token}
    (hp : (p marker ts).Yields b us) (hf : (f b marker us).Yields a rest) :
    ((p >>= f) marker ts).Yields a rest := by
  rw [bind_apply]
  rcases hp with hp | hp
  · rw [hp]
    exact .inl rfl
  · rw [hp]
    exact hf

theorem yields_peek {f : Token → Reader α}
    (h : (f (next marker ts) marker ts).Yields a rest) :
    ((peek >>= f) marker ts).Yields a rest := h

theorem yields_take {f : Token → Reader α} {t : Token}
    (h : (f t marker ts).Yields a rest) :
    ((take >>= f) marker (t :: ts)).Yields a rest := h

theorem yields_accept {f : Bool → Reader α} {t : Token} (ht : t.kind = kind)
    (h : (f true marker ts).Yields a rest) :
    ((accept kind >>= f) marker (t :: ts)).Yields a rest := by
  rw [bind_apply, accept, next, if_pos ht]
  exact h

theorem yields_decline {f : Bool → Reader α} (hn : (next marker ts).kind ≠ kind)
    (h : (f false marker ts).Yields a rest) :
    ((accept kind >>= f) marker ts).Yields a rest := by
  rw [bind_apply, accept, if_neg hn]
  exact h

theorem yields_expect {f : Token → Reader α} {t : Token} (ht : t.kind = kind)
    (h : (f t marker ts).Yields a rest) :
    ((expect kind >>= f) marker (t :: ts)).Yields a rest := by
  rw [bind_apply, expect, next, if_pos ht]
  exact h

theorem yields_name {f : String → Reader α} {t : Token} (ht : t.kind = .identifier)
    (h : (f t.text marker ts).Yields a rest) :
    ((name >>= f) marker (t :: ts)).Yields a rest := by
  rw [name_bind]
  exact yields_expect ht h

end Reader

/-! ## The end marker -/

namespace Token

variable {tokens ts : List Token} {marker : Token}

/-- The tokens that are read are those before the first end marker. -/
theorem splitAtEnd_fst (tokens : List Token) :
    (splitAtEnd tokens).1 = tokens.takeWhile (·.kind ≠ .endOfInput) := by
  fun_induction splitAtEnd tokens with
  | case1 => rfl
  | case2 t h => simp [h]
  | case3 t h => simp [h]
  | case4 t u ts h => simp [h]
  | case5 t u ts h tokens marker hs ih => simp_all

theorem splitAtEnd_fst_append {behind : List Token} (h : ∀ t ∈ ts, t.kind ≠ .endOfInput)
    (hbehind : ∀ t ∈ behind.head?, t.kind = .endOfInput) : (splitAtEnd (ts ++ behind)).1 = ts := by
  rw [splitAtEnd_fst, List.takeWhile_append_of_pos (by simpa using h)]
  cases behind with
  | nil => simp
  | cons t behind => simp [hbehind t rfl]

theorem kind_ne_of_mem_splitAtEnd {t : Token} (h : t ∈ (splitAtEnd tokens).1) :
    t.kind ≠ .endOfInput := by
  rw [splitAtEnd_fst] at h
  simpa using List.all_eq_true.1 List.all_takeWhile t h

end Token

end DialectScript
