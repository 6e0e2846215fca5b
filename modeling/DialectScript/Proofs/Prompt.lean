import DialectScript.Proofs.Reading
import DialectScript.Proofs.Writable

/-!
# Readers that fail at the first offending token

A reader is *prompt* (`Reader.Prompt`) if it takes notice of a token only once it stands next, and
if it fails no later than it has to.

* What it makes of the tokens it takes depends on nothing behind them but the next token, and any
  token at which it stops may stand there instead.
* If it fails, the error names the token that stands next behind some tokens (`SyntaxError.At`).
  It fails with the same error on every list that goes on with that token behind those tokens,
  and those tokens can be completed to a phrase that it reads.

Both compare a reading with readings of other lists, which may have another bound and another end
marker; they hold of every bound that is not exhausted. There is one lemma for each step a reader
can make.
-/

namespace DialectScript

/-! ## The token that an error names -/

/-- The error is about the token, which stands next behind the tokens before it. -/
inductive SyntaxError.At : SyntaxError → List Token → Token → Prop
  | unexpected {kind : Kind} {before : List Token} {t : Token} :
      t.kind ≠ kind → At (.unexpected kind t) before t
  | noExpression {before : List Token} {t : Token} :
      t.kind ∉ Tier.primary.starters → At (.noExpression t) before t
  | noParameter {before : List Token} {t : Token} :
      t.kind ≠ .identifier → At (.noParameter t) before t
  /-- The place of this error is the declaration in front of the token. -/
  | missingInitializer {before : List Token} {k name t : Token} :
      k.kind = .constKeyword → name.kind = .identifier → t.kind ≠ .equals →
      At ⟨.missingInitializer name.text, k.span.merge name.span⟩ (before ++ [k, name]) t
  | invalidNumber {before : List Token} {t : Token} :
      t.kind = .number → Numeral.value? t.text = none →
      At ⟨.invalidNumber t.text, t.span⟩ before t

theorem SyntaxError.At.append_left {e : SyntaxError} {before : List Token} {t : Token}
    (h : e.At before t) (us : List Token) : e.At (us ++ before) t := by
  cases h with
  | unexpected ht => exact .unexpected ht
  | noExpression ht => exact .noExpression ht
  | noParameter ht => exact .noParameter ht
  | missingInitializer hk hname ht =>
    rw [← List.append_assoc]
    exact .missingInitializer hk hname ht
  | invalidNumber ht hvalue => exact .invalidNumber ht hvalue

/-- The reading ends with the error, unless its bound is exhausted. -/
def Reading.Refuses {α : Type} (r : Reading α) (e : SyntaxError) : Prop :=
  r = .exhausted ∨ r = .failed e

namespace Reader

variable {α β : Type} {stop stop' : Kind → Prop} {P Q : Nat → Reader α}
variable {marker : Token} {n : Nat} {ts : List Token} {kind : Kind} {e : SyntaxError}

/-! ## Completions -/

/-- Some tokens behind those before complete a phrase that the readers read, in front of every
token at which they stop. -/
def Completes (stop : Kind → Prop) (P : Nat → Reader α) (before : List Token) : Prop :=
  ∃ more a, ∀ marker rest, stop (next marker rest).kind →
    ∀ n, (P n marker (before ++ (more ++ rest))).Yields a rest

/-- From nothing, some tokens complete a phrase that the readers read, and the readers in front
stop there. -/
def Opens (stop stop' : Kind → Prop) (P : Nat → Reader α) : Prop :=
  ∃ more a, ∀ marker rest, stop (next marker rest).kind →
    stop' (next marker (more ++ rest)).kind ∧ ∀ n, (P n marker (more ++ rest)).Yields a rest

theorem Opens.completes (h : Opens stop stop' P) : Completes stop P [] := by
  obtain ⟨more, a, h⟩ := h
  exact ⟨more, a, fun marker rest hrest => (h marker rest hrest).2⟩

/-- Nothing has to be added if the readers may take nothing. -/
theorem opens_nil {a : α} (hstop : ∀ kind, stop kind → stop' kind)
    (h : ∀ marker rest, stop (next marker rest).kind → ∀ n, (P n marker rest).Yields a rest) :
    Opens stop stop' P :=
  ⟨[], a, fun marker rest hrest => ⟨hstop _ hrest, h marker rest hrest⟩⟩

theorem opens_expect {f : Nat → Token → Reader α} {t : Token} (ht : t.kind = kind)
    (h : Completes stop (fun n => f n t) []) :
    Opens stop (· = kind) fun n => expect kind >>= f n := by
  obtain ⟨more, a, h⟩ := h
  exact ⟨t :: more, a, fun marker rest hrest =>
    ⟨ht, fun n => yields_expect ht (h marker rest hrest n)⟩⟩

theorem opens_accept {f : Nat → Bool → Reader α} {a : α}
    (hstop : ∀ kind, stop kind → stop' kind) (hk : ¬ stop kind) (hf : ∀ n, f n false = pure a) :
    Opens stop stop' fun n => accept kind >>= f n := by
  refine opens_nil (a := a) hstop fun marker rest hrest n => yields_decline ?_ ?_
  · rintro rfl
    exact hk hrest
  · rw [hf]
    exact yields_pure

theorem completes_accept {f : Nat → Bool → Reader α} {a : α} (hk : ¬ stop kind)
    (hf : ∀ n, f n false = pure a) : Completes stop (fun n => accept kind >>= f n) [] :=
  (opens_accept (fun _ h => h) hk hf).completes

theorem completes_accept_token {f : Nat → Bool → Reader α} {t : Token} (ht : t.kind = kind)
    (h : Completes stop (fun n => f n true) []) :
    Completes stop (fun n => accept kind >>= f n) [] := by
  obtain ⟨more, a, h⟩ := h
  exact ⟨t :: more, a, fun marker rest hrest n => yields_accept ht (h marker rest hrest n)⟩

theorem completes_pure {a : α} : Completes stop (fun _ => pure a) [] :=
  ⟨[], a, fun _ _ _ _ => yields_pure⟩

theorem completes_bind {R : Nat → Reader β} {f : Nat → β → Reader α} {before : List Token}
    (hp : Completes stop' R before) (hf : ∀ b, Opens stop stop' fun n => f n b) :
    Completes stop (fun n => R n >>= f n) before := by
  obtain ⟨more, b, hp⟩ := hp
  obtain ⟨more', a, hf⟩ := hf b
  refine ⟨more ++ more', a, fun marker rest hrest n => ?_⟩
  obtain ⟨hnext, hyields⟩ := hf marker rest hrest
  rw [List.append_assoc]
  exact yields_bind (hp marker _ hnext n) (hyields n)

theorem opens_bind {stop'' : Kind → Prop} {R : Nat → Reader β} {f : Nat → β → Reader α}
    (hp : Opens stop' stop'' R) (hf : ∀ b, Opens stop stop' fun n => f n b) :
    Opens stop stop'' fun n => R n >>= f n := by
  obtain ⟨more, b, hp⟩ := hp
  obtain ⟨more', a, hf⟩ := hf b
  refine ⟨more ++ more', a, fun marker rest hrest => ?_⟩
  obtain ⟨hnext, hyields⟩ := hf marker rest hrest
  rw [List.append_assoc]
  obtain ⟨hnext', hyields'⟩ := hp marker _ hnext
  exact ⟨hnext', fun n => yields_bind (hyields' n) (hyields n)⟩

theorem opens_pure {a : α} (hstop : ∀ kind, stop kind → stop' kind) :
    Opens stop stop' fun _ => pure a :=
  opens_nil hstop fun _ _ _ _ => yields_pure

/-- What completes a phrase for the readers completes one for their bodies. -/
theorem completes_of_succ {before : List Token} (hsucc : ∀ n, P (n + 1) = Q n)
    (h : Completes stop P before) : Completes stop Q before := by
  obtain ⟨more, a, h⟩ := h
  refine ⟨more, a, fun marker rest hrest n => ?_⟩
  rw [← hsucc]
  exact h marker rest hrest (n + 1)

/-! ## Prompt readers -/

/-- With this bound and these tokens, the readers fail no later than they have to. -/
def Prompt (stop : Kind → Prop) (P : Nat → Reader α) (marker : Token) (n : Nat)
    (ts : List Token) : Prop :=
  match P n marker ts with
  | .done a rest => ∃ used, ts = used ++ rest ∧ ∀ m marker' rest',
      next marker' rest' = next marker rest ∨ stop (next marker' rest').kind →
        (P m marker' (used ++ rest')).Yields a rest'
  | .failed e => ∃ before rest, ts = before ++ rest ∧ e.At before (next marker rest) ∧
      (∀ m marker' rest', next marker' rest' = next marker rest →
        (P m marker' (before ++ rest')).Refuses e) ∧
      Completes stop P before
  | .exhausted => True

theorem Prompt.takes (h : Prompt stop P marker n ts) :
    (P n marker ts).Takes ts fun _ _ _ => True := by
  rw [Prompt] at h
  cases hr : P n marker ts with
  | done a rest =>
    rw [hr] at h
    obtain ⟨used, hts, -⟩ := h
    exact ⟨used, hts, trivial⟩
  | failed e => trivial
  | exhausted => trivial

/-- A prompt reader is prompt in front of fewer tokens, too. -/
theorem Prompt.anti (h : Prompt stop P marker n ts) (hstop : ∀ kind, stop' kind → stop kind) :
    Prompt stop' P marker n ts := by
  rw [Prompt] at h ⊢
  cases hr : P n marker ts with
  | done a rest =>
    rw [hr] at h
    obtain ⟨used, hts, hrun⟩ := h
    exact ⟨used, hts, fun m marker' rest' hnext => hrun m marker' rest' (hnext.imp_right (hstop _))⟩
  | failed e =>
    rw [hr] at h
    obtain ⟨before, rest, hts, hat, hsame, more, a, hmore⟩ := h
    exact ⟨before, rest, hts, hat, hsame, more, a,
      fun marker' rest' hrest => hmore marker' rest' (hstop _ hrest)⟩
  | exhausted => trivial

theorem prompt_exhausted (h : P n = exhausted) : Prompt stop P marker n ts := by
  rw [Prompt, h]
  trivial

/-- Readers with one call left do what their bodies do. -/
theorem prompt_succ {F : Nat → Reader α} (hzero : P 0 = exhausted) (hsucc : ∀ n, P (n + 1) = F n)
    (h : Prompt stop F marker n ts) : Prompt stop P marker (n + 1) ts := by
  rw [Prompt, hsucc]
  rw [Prompt] at h
  -- The bounds of other runs may be zero, where the reader has run out and nothing is asked of it.
  cases hr : F n marker ts with
  | done a rest =>
    rw [hr] at h
    obtain ⟨used, hts, hrun⟩ := h
    refine ⟨used, hts, fun m marker' rest' hnext => ?_⟩
    cases m with
    | zero =>
      rw [hzero]
      exact yields_exhausted
    | succ m =>
      rw [hsucc]
      exact hrun m marker' rest' hnext
  | failed e =>
    rw [hr] at h
    obtain ⟨before, rest, hts, hat, hsame, more, a, hmore⟩ := h
    refine ⟨before, rest, hts, hat, fun m marker' rest' hnext => ?_, more, a,
      fun marker' rest' hrest m => ?_⟩
    · cases m with
      | zero =>
        rw [hzero]
        exact .inl rfl
      | succ m =>
        rw [hsucc]
        exact hsame m marker' rest' hnext
    · cases m with
      | zero =>
        rw [hzero]
        exact yields_exhausted
      | succ m =>
        rw [hsucc]
        exact hmore marker' rest' hrest m
  | exhausted => trivial

/-! ## Single steps -/

/-- A reader that returns without taking a token. -/
theorem prompt_return {a : α} (h : ∀ m marker' rest,
    next marker' rest = next marker ts ∨ stop (next marker' rest).kind →
      (P m marker' rest).Yields a rest) : Prompt stop P marker n ts := by
  rw [Prompt]
  rcases h n marker ts (.inl rfl) with hr | hr
  · rw [hr]
    trivial
  · rw [hr]
    exact ⟨[], rfl, h⟩

/-- A reader that fails because of the token behind those before. -/
theorem prompt_fail {before rest : List Token} (hts : ts = before ++ rest)
    (h : ∀ m marker' rest', next marker' rest' = next marker rest →
      (P m marker' (before ++ rest')).Refuses e)
    (hat : e.At before (next marker rest)) (hc : Completes stop P before) :
    Prompt stop P marker n ts := by
  rw [Prompt, hts]
  rcases h n marker rest rfl with hr | hr
  · rw [hr]
    trivial
  · rw [hr]
    exact ⟨before, rest, rfl, hat, h, hc⟩

/-- A reader that takes the next token and goes on as another does. -/
theorem prompt_token (hm : marker.kind = .endOfInput) (hk : (next marker ts).kind ≠ .endOfInput)
    (hP : ∀ m marker' rest, P m marker' (next marker ts :: rest) = Q m marker' rest)
    (h : Prompt stop Q marker n ts.tail) : Prompt stop P marker n ts := by
  cases ts with
  | nil => exact absurd hm hk
  | cons t ts =>
    rw [next] at hP
    rw [Prompt, hP]
    rw [Prompt, List.tail_cons] at h
    cases hr : Q n marker ts with
    | done a rest =>
      rw [hr] at h
      obtain ⟨used, rfl, hrun⟩ := h
      refine ⟨t :: used, rfl, fun m marker' rest' hnext => ?_⟩
      rw [List.cons_append, hP]
      exact hrun m marker' rest' hnext
    | failed e =>
      rw [hr] at h
      obtain ⟨before, rest, rfl, hat, hsame, more, a, hmore⟩ := h
      refine ⟨t :: before, rest, rfl, hat.append_left [t], fun m marker' rest' hnext => ?_,
        more, a, fun marker' rest' hrest m => ?_⟩
      · rw [List.cons_append, hP]
        exact hsame m marker' rest' hnext
      · rw [List.cons_append, hP]
        exact hmore marker' rest' hrest m
    | exhausted => trivial

/-- A reader that does what another does, because of the next token. -/
theorem prompt_same
    (hP : ∀ m marker' rest, next marker' rest = next marker ts →
      P m marker' rest = Q m marker' rest)
    (htakes : (Q n marker ts).Takes ts fun _ used _ => used ≠ []) (hc : Completes stop P [])
    (h : Prompt stop Q marker n ts) : Prompt stop P marker n ts := by
  rw [Prompt, hP n marker ts rfl]
  rw [Prompt] at h
  cases hr : Q n marker ts with
  | done a rest =>
    rw [hr] at h htakes
    obtain ⟨used, rfl, hrun⟩ := h
    obtain ⟨used', hused, hne⟩ := htakes
    obtain rfl := List.append_cancel_right hused
    obtain ⟨t, us, rfl⟩ := List.exists_cons_of_ne_nil hne
    refine ⟨t :: us, rfl, fun m marker' rest' hnext => ?_⟩
    rw [hP m marker' _ rfl]
    exact hrun m marker' rest' hnext
  | failed e =>
    rw [hr] at h
    obtain ⟨before, rest, rfl, hat, hsame, more, a, hmore⟩ := h
    -- A failure on the first token is one from nothing, which the first reader completes itself.
    cases before with
    | nil =>
      refine ⟨[], rest, rfl, hat, fun m marker' rest' hnext => ?_, hc⟩
      rw [List.nil_append, hP m marker' rest' hnext]
      exact hsame m marker' rest' hnext
    | cons t before =>
      refine ⟨t :: before, rest, rfl, hat, fun m marker' rest' hnext => ?_, more, a,
        fun marker' rest' hrest m => ?_⟩
      · rw [hP m marker' _ rfl]
        exact hsame m marker' rest' hnext
      · rw [hP m marker' _ rfl]
        exact hmore marker' rest' hrest m
  | exhausted => trivial

/-! ## A look at the next token -/

section Peek

variable {F : Nat → Token → Reader α}

theorem prompt_peek_return {a : α}
    (hF : ∀ m t, t = next marker ts ∨ stop t.kind → F m t = pure a) :
    Prompt stop (fun n => peek >>= F n) marker n ts :=
  prompt_return fun m marker' rest hnext => yields_peek (by
    rw [hF m _ hnext]
    exact yields_pure)

theorem prompt_peek_fail (hF : ∀ m, F m (next marker ts) = fail e)
    (hat : e.At [] (next marker ts)) (hc : Completes stop (fun n => peek >>= F n) []) :
    Prompt stop (fun n => peek >>= F n) marker n ts := by
  refine prompt_fail (List.nil_append ts).symm (fun m marker' rest hnext => .inr ?_) hat hc
  show F m (next marker' rest) marker' rest = .failed e
  rw [hnext, hF]
  rfl

theorem prompt_peek_take {f : Nat → Token → Reader α} (hm : marker.kind = .endOfInput)
    (hk : (next marker ts).kind ≠ .endOfInput) (hF : ∀ m, F m (next marker ts) = take >>= f m)
    (h : Prompt stop (fun n => f n (next marker ts)) marker n ts.tail) :
    Prompt stop (fun n => peek >>= F n) marker n ts := by
  refine prompt_token hm hk (fun m marker' rest => ?_) h
  show F m (next marker ts) marker' (next marker ts :: rest) = _
  rw [hF]
  rfl

/-- A reader that takes the next token, and fails because of that token. -/
theorem prompt_peek_reject {f : Nat → Token → Reader α}
    (hF : ∀ m, F m (next marker ts) = take >>= f m) (hf : ∀ m, f m (next marker ts) = fail e)
    (hat : e.At [] (next marker ts)) (hc : Completes stop (fun n => peek >>= F n) []) :
    Prompt stop (fun n => peek >>= F n) marker n ts := by
  refine prompt_fail (List.nil_append ts).symm (fun m marker' rest hnext => .inr ?_) hat hc
  show F m (next marker' rest) marker' rest = .failed e
  rw [hnext, hF]
  show f m (next marker' rest) marker' rest.tail = .failed e
  rw [hnext, hf]
  rfl

theorem prompt_peek_same (hF : ∀ m, F m (next marker ts) = Q m)
    (htakes : (Q n marker ts).Takes ts fun _ used _ => used ≠ [])
    (hc : Completes stop (fun n => peek >>= F n) []) (h : Prompt stop Q marker n ts) :
    Prompt stop (fun n => peek >>= F n) marker n ts := by
  refine prompt_same (fun m marker' rest hnext => ?_) htakes hc h
  show F m (next marker' rest) marker' rest = Q m marker' rest
  rw [hnext, hF]

end Peek

/-! ## One reader behind another -/

theorem refuses_bind {p : Reader β} {f : β → Reader α} {b : β} {us : List Token}
    (hp : (p marker ts).Yields b us) (hf : (f b marker us).Refuses e) :
    ((p >>= f) marker ts).Refuses e := by
  rw [bind_apply]
  rcases hp with hp | hp
  · rw [hp]
    exact .inl rfl
  · rw [hp]
    exact hf

theorem refuses_bind_left {p : Reader β} {f : β → Reader α} (hp : (p marker ts).Refuses e) :
    ((p >>= f) marker ts).Refuses e := by
  rw [bind_apply]
  rcases hp with hp | hp
  · rw [hp]
    exact .inl rfl
  · rw [hp]
    exact .inr rfl

/-- The next token behind the same tokens is the same if it is the same behind none. -/
theorem next_append_congr {marker marker' : Token} {rest rest' : List Token}
    (h : next marker' rest' = next marker rest) (us : List Token) :
    next marker' (us ++ rest') = next marker (us ++ rest) := by
  cases us with
  | nil => exact h
  | cons t us => rfl

/-- Readers behind prompt ones, which stop in front of what follows. -/
theorem prompt_bind {R : Nat → Reader β} {f : Nat → β → Reader α}
    (hp : Prompt stop' R marker n ts)
    (hf : ∀ b rest, Prompt stop (fun n => f n b) marker n rest)
    (hopens : ∀ b, Opens stop stop' fun n => f n b)
    (hstop : ∀ b rest, (f n b marker rest).Takes rest fun _ used _ =>
      used = [] → ∀ kind, stop kind → stop' kind) :
    Prompt stop (fun n => R n >>= f n) marker n ts := by
  rw [Prompt, bind_apply]
  rw [Prompt] at hp
  -- If the second phrase fails, what the first one took goes in front of what the second took.
  cases hr : R n marker ts with
  | done b rest =>
    rw [hr] at hp
    obtain ⟨used, rfl, hrun⟩ := hp
    have hf := hf b rest
    have hstop := hstop b rest
    rw [Prompt] at hf
    dsimp only
    cases hr' : f n b marker rest with
    | done a rest' =>
      rw [hr'] at hf hstop
      obtain ⟨us, rfl, hrun'⟩ := hf
      obtain ⟨us', hus, hnil⟩ := hstop
      obtain rfl := List.append_cancel_right hus
      refine ⟨used ++ us, by rw [List.append_assoc], fun m marker' rest'' hnext => ?_⟩
      rw [List.append_assoc]
      refine yields_bind (hrun m marker' (us ++ rest'') ?_) (hrun' m marker' rest'' hnext)
      -- The first phrase ends in front of the second one, unless that is empty.
      cases us with
      | nil => exact hnext.imp_right (hnil rfl _)
      | cons t us => exact .inl rfl
    | failed e =>
      rw [hr'] at hf
      obtain ⟨before, rest', rfl, hat, hsame, hmore⟩ := hf
      refine ⟨used ++ before, rest', by rw [List.append_assoc], hat.append_left used,
        fun m marker' rest'' hnext => ?_, ?_⟩
      · rw [List.append_assoc]
        exact refuses_bind (hrun m marker' _ (.inl (next_append_congr hnext before)))
          (hsame m marker' rest'' hnext)
      · -- What completes the second phrase from nothing must not carry the first one on.
        cases before with
        | nil =>
          obtain ⟨more, a, hmore⟩ := hopens b
          refine ⟨more, a, fun marker' rest'' hrest m => ?_⟩
          obtain ⟨hnext, hyields⟩ := hmore marker' rest'' hrest
          rw [List.append_nil]
          exact yields_bind (hrun m marker' _ (.inr hnext)) (hyields m)
        | cons t before =>
          obtain ⟨more, a, hmore⟩ := hmore
          refine ⟨more, a, fun marker' rest'' hrest m => ?_⟩
          rw [List.append_assoc]
          exact yields_bind (hrun m marker' _ (.inl rfl)) (hmore marker' rest'' hrest m)
    | exhausted => trivial
  | failed e =>
    rw [hr] at hp
    obtain ⟨before, rest, rfl, hat, hsame, hmore⟩ := hp
    exact ⟨before, rest, rfl, hat, fun m marker' rest' hnext =>
      refuses_bind_left (hsame m marker' rest' hnext), completes_bind hmore hopens⟩
  | exhausted => trivial

/-- Readers behind prompt ones that stop wherever those behind do. -/
theorem prompt_then {R : Nat → Reader β} {f : Nat → β → Reader α}
    (hstop : ∀ kind, stop kind → stop' kind) (hp : Prompt stop' R marker n ts)
    (hf : ∀ b rest, Prompt stop (fun n => f n b) marker n rest)
    (hopens : ∀ b, Opens stop stop' fun n => f n b) :
    Prompt stop (fun n => R n >>= f n) marker n ts :=
  prompt_bind hp hf hopens fun b rest =>
    takes_mono (hf b rest).takes fun _ _ _ _ _ => hstop

theorem prompt_pure {a : α} : Prompt stop (fun _ => pure a) marker n ts :=
  prompt_return fun _ _ _ _ => yields_pure

theorem prompt_map {R : Nat → Reader β} {g : β → α} (hp : Prompt stop R marker n ts) :
    Prompt stop (fun n => R n >>= fun b => pure (g b)) marker n ts :=
  prompt_then (fun _ h => h) hp (fun _ _ => prompt_pure) fun _ => opens_pure fun _ h => h

/-! ## Tokens of one kind -/

/-- A reader that takes a token of a kind if one stands next, as one does. -/
theorem prompt_accept_token {f : Nat → Bool → Reader α} (hm : marker.kind = .endOfInput)
    (hk : kind ≠ .endOfInput) (h : (next marker ts).kind = kind)
    (ht : Prompt stop (fun n => f n true) marker n ts.tail) :
    Prompt stop (fun n => accept kind >>= f n) marker n ts := by
  refine prompt_token hm (h ▸ hk) (fun m marker' rest => ?_) ht
  rw [bind_apply, accept, next, if_pos h]
  rfl

/-- A reader that takes a token of a kind if one stands next, and else returns. -/
theorem prompt_accept {f : Nat → Bool → Reader α} {a : α} (hm : marker.kind = .endOfInput)
    (hk : kind ≠ .endOfInput) (hstop : ¬ stop kind)
    (ht : ∀ rest, Prompt stop (fun n => f n true) marker n rest)
    (hf : ∀ m, f m false = pure a) :
    Prompt stop (fun n => accept kind >>= f n) marker n ts := by
  by_cases h : (next marker ts).kind = kind
  · exact prompt_accept_token hm hk h (ht ts.tail)
  · refine prompt_return (a := a) fun m marker' rest hnext => ?_
    have hne : (next marker' rest).kind ≠ kind := by
      rintro rfl
      rcases hnext with hnext | hnext
      · exact h (by rw [hnext])
      · exact hstop hnext
    refine yields_decline hne ?_
    rw [hf]
    exact yields_pure

/-- A reader that fails unless a token of a kind stands next. -/
theorem prompt_expect {f : Nat → Token → Reader α} (hm : marker.kind = .endOfInput)
    (hk : kind ≠ .endOfInput)
    (ht : (next marker ts).kind = kind →
      Prompt stop (fun n => f n (next marker ts)) marker n ts.tail)
    (hc : ∀ t, t.kind = kind → Completes stop (fun n => f n t) []) :
    Prompt stop (fun n => expect kind >>= f n) marker n ts := by
  by_cases h : (next marker ts).kind = kind
  · refine prompt_token hm (h ▸ hk) (fun m marker' rest => ?_) (ht h)
    rw [bind_apply, expect, next, if_pos h]
    rfl
  · refine prompt_fail (e := .unexpected kind (next marker ts)) (List.nil_append ts).symm
      (fun m marker' rest hnext => ?_) (.unexpected h) ?_
    · rw [List.nil_append, bind_apply, expect, hnext, if_neg h]
      exact .inr rfl
    · have ht := Token.floating_kind kind ""
      exact (opens_expect ht (hc _ ht)).completes

/-- Readers in front of a closing token. -/
theorem prompt_closed {R : Nat → Reader β} {f : Nat → β → Token → Reader α} {close : Kind}
    (hm : marker.kind = .endOfInput) (hk : close ≠ .endOfInput)
    (hp : Prompt (· = close) R marker n ts)
    (hf : ∀ b t rest, t.kind = close → Prompt stop (fun n => f n b t) marker n rest)
    (hc : ∀ b t, t.kind = close → Completes stop (fun n => f n b t) []) :
    Prompt stop (fun n => R n >>= fun b => expect close >>= f n b) marker n ts := by
  refine prompt_bind hp (fun b rest => prompt_expect hm hk (hf b _ _) (hc b)) (fun b => ?_)
    fun b rest => takes_expect hm hk fun h => ?_
  · have ht := Token.floating_kind close ""
    exact opens_expect ht (hc b _ ht)
  · exact takes_mono (hf b _ _ h).takes nofun

/-! ## Lists -/

/-- A round of reading a list. -/
theorem prompt_items {close : Kind} {item : Nat → Reader α} {more : Nat → Reader (List α)}
    (hm : marker.kind = .endOfInput) (hclose : close ≠ .comma)
    (hitem : Prompt (fun kind => kind = .comma ∨ kind = close) item marker n ts)
    (htakes : (item n marker ts).Takes ts fun _ used _ => used ≠ [])
    (hmore : ∀ rest, Prompt (· = close) more marker n rest) :
    Prompt (· = close) (fun n => items close (item n) (more n)) marker n ts := by
  have hnil : ∀ marker rest, (next marker rest).kind = close → ∀ n,
      (items close (item n) (more n) marker rest).Yields [] rest := by
    intro marker rest hrest n
    rw [items]
    apply yields_peek
    rw [if_pos hrest]
    exact yields_pure
  by_cases h : (next marker ts).kind = close
  · refine prompt_peek_return (a := []) fun m t ht => if_pos ?_
    rcases ht with rfl | ht
    · exact h
    · exact ht
  · have hbehind : ∀ a rest, Prompt (· = close) (fun n => accept .comma >>= fun b =>
        if b then more n >>= fun as => pure (a :: as) else pure [a]) marker n rest :=
      fun a rest => prompt_accept hm (by decide) hclose.symm
        (fun rest => prompt_map (hmore rest)) fun _ => rfl
    refine prompt_peek_same (fun m => if_neg h) ?_ ⟨[], [], hnil⟩
      (prompt_then (fun _ => .inr) hitem hbehind fun a => ?_)
    · exact takes_bind htakes fun a used rest hne =>
        takes_mono (hbehind a rest).takes fun _ us _ _ => by simp [hne]
    · exact opens_accept (fun _ => .inr) hclose.symm fun _ => rfl

end Reader

end DialectScript
