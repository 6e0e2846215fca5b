import DialectScript.Proofs.Joining

/-!
# Punctuation that may be left out

**Theorem (`Program.ofTokens_trims`).** If tokens are read as a program, they are read as the same
program without any of their semicolons that do not stand in front of a parenthesis, a bracket, an
`else` or another semicolon, and without any of their commas that stand in front of a closing
parenthesis, bracket or brace.

The commas are the last ones of lists (`Listed.trims`). A semicolon is that of the statement behind
which it is taken, however many bodies without braces end there, and without it the same statements
are read in front of the token behind it (`Portion.Parses.change_ahead`). A token that is left out
is never the one that an earlier reader looked at: that one starts a statement or an item.
-/

namespace DialectScript

/-- In front of a token of the kind, a token of this kind may be left out. -/
def Kind.Idle (kind next : Kind) : Prop :=
  kind = .semicolon ∧ next ∉ [Kind.leftParen, .leftBracket, .elseKeyword, .semicolon] ∨
    kind = .comma ∧ next ∈ [Kind.rightParen, .rightBracket, .rightBrace]

instance (kind next : Kind) : Decidable (kind.Idle next) := inferInstanceAs (Decidable (_ ∨ _))

/-- The second list has the tokens of the first but some that may be left out, each in front of the
token that stands behind it in the first list. Behind the last one stands a token of a given
kind. -/
inductive Trims (behind : Kind) : List Token → List Token → Prop
  | nil : Trims behind [] []
  | keep (t : Token) {ts us : List Token} : Trims behind ts us → Trims behind (t :: ts) (t :: us)
  | drop {t : Token} {ts us : List Token} :
      t.kind.Idle (behind.ahead ts) → Trims behind ts us → Trims behind (t :: ts) us

theorem Kind.ahead_append (k : Kind) (ts us : List Token) :
    k.ahead (ts ++ us) = (k.ahead us).ahead ts := by
  cases ts <;> rfl

namespace Trims

variable {k : Kind} {ts us ws : List Token} {t l r : Token}

theorem refl (k : Kind) (ts : List Token) : Trims k ts ts := by
  induction ts with
  | nil => exact .nil
  | cons t ts ih => exact .keep t ih

/-- One token may be left out. -/
theorem one (front : List Token) {back : List Token} (h : t.kind.Idle (k.ahead back)) :
    Trims k (front ++ t :: back) (front ++ back) := by
  induction front with
  | nil => exact .drop h (refl k back)
  | cons u front ih => exact .keep u ih

theorem eq_nil (h : Trims k [] us) : us = [] := by
  cases h
  rfl

/-- The token behind the first part of a list is the first of the second part. -/
theorem append_split (h : Trims k (ts ++ us) ws) :
    ∃ ts' us', ws = ts' ++ us' ∧ Trims (k.ahead us) ts ts' ∧ Trims k us us' := by
  induction ts generalizing ws with
  | nil => exact ⟨[], ws, rfl, .nil, h⟩
  | cons t ts ih =>
    rw [List.cons_append] at h
    cases h with
    | keep _ h =>
      obtain ⟨ts', us', rfl, hts, hus⟩ := ih h
      exact ⟨t :: ts', us', rfl, .keep t hts, hus⟩
    | drop hidle h =>
      obtain ⟨ts', us', rfl, hts, hus⟩ := ih h
      rw [Kind.ahead_append] at hidle
      exact ⟨ts', us', rfl, .drop hidle hts, hus⟩

/-- Only semicolons and commas are left out. -/
theorem cons_split (h : Trims k (t :: ts) ws) (ht : t.kind ∉ [Kind.semicolon, .comma]) :
    ∃ ts', ws = t :: ts' ∧ Trims k ts ts' := by
  cases h with
  | keep _ h => exact ⟨_, rfl, h⟩
  | drop hidle _ => rcases hidle with ⟨hk, -⟩ | ⟨hk, -⟩ <;> simp [hk] at ht

theorem singleton_eq (h : Trims k [t] ws) (ht : t.kind ∉ [Kind.semicolon, .comma]) : ws = [t] := by
  obtain ⟨ts', rfl, hnil⟩ := h.cons_split ht
  rw [hnil.eq_nil]

/-- Between two delimiters, the closing one stands behind the last token. -/
theorem delimited_split (h : Trims k (l :: (ts ++ [r])) ws)
    (hl : l.kind ∉ [Kind.semicolon, .comma]) (hr : r.kind ∉ [Kind.semicolon, .comma]) :
    ∃ ts', ws = l :: (ts' ++ [r]) ∧ Trims r.kind ts ts' := by
  obtain ⟨_, rfl, hrest⟩ := h.cons_split hl
  obtain ⟨ts', rs, rfl, hts, hrs⟩ := hrest.append_split
  exact ⟨ts', by rw [hrs.singleton_eq hr], hts⟩

/-- The first token of a statement is never left out. -/
theorem ahead_eq (h : Trims k (t :: ts) us) (ht : t.kind ∈ Stmt.starters) (behind : Kind) :
    behind.ahead us = t.kind := by
  have hkept : ∀ kind ∈ Stmt.starters, kind ∉ [Kind.semicolon, .comma] := by decide
  obtain ⟨us, rfl, -⟩ := h.cons_split (hkept _ ht)
  rfl

theorem endsWith {kind : Kind} (h : Trims k ts us) (hkind : kind ∉ [Kind.semicolon, .comma])
    (hends : EndsWith kind ts) : EndsWith kind us := by
  induction h with
  | nil => exact hends
  | @keep t ts us h ih =>
    cases ts with
    | nil =>
      rw [h.eq_nil]
      exact hends
    | cons u ts => exact (ih ((endsWith_cons (by simp)).1 hends)).append_left [t]
  | @drop t ts us hidle h ih =>
    cases ts with
    | nil =>
      rw [endsWith_singleton] at hends
      rcases hidle with ⟨hk, -⟩ | ⟨hk, -⟩ <;> simp [← hends, hk] at hkind
    | cons u ts => exact ih ((endsWith_cons (by simp)).1 hends)

/-- Behind the first end marker nothing is looked at. -/
theorem takeWhile (h : Trims .endOfInput ts us) :
    Trims .endOfInput (ts.takeWhile (·.kind ≠ .endOfInput))
      (us.takeWhile (·.kind ≠ .endOfInput)) := by
  induction h with
  | nil => exact .nil
  | @keep t ts us h ih =>
    by_cases ht : t.kind = .endOfInput
    · simpa [ht] using Trims.nil
    · simpa [ht] using ih.keep t
  | @drop t ts us hidle h ih =>
    have ht : t.kind ≠ .endOfInput := by
      rcases hidle with ⟨hk, -⟩ | ⟨hk, -⟩ <;> simp [hk]
    have hahead : Kind.endOfInput.ahead (ts.takeWhile (·.kind ≠ .endOfInput)) =
        Kind.endOfInput.ahead ts := by
      cases ts with
      | nil => rfl
      | cons u ts => by_cases hu : u.kind = .endOfInput <;> simp [Kind.ahead, hu]
    rw [List.takeWhile_cons_of_pos (by exact decide_eq_true ht)]
    exact .drop (hahead ▸ hidle) ih

end Trims

/-! ## Lists -/

variable {k k' : Kind} {ts us : List Token}

theorem Separated.cons_eq {item : List Token} {items : List (List Token)}
    (h : Separated (item :: items) ts) : ∃ rest, ts = item ++ rest := by
  cases h with
  | last => exact ⟨[], by rw [List.append_nil]⟩
  | comma _ _ _ => exact ⟨_, rfl⟩

/-- A list is the same without the comma behind its last item. Any other comma stands in front of an
item, and so in front of no closing token. -/
theorem Listed.trims {α : Type} {P Q : α → List Token → Prop} {as : List α} (h : Listed P as ts)
    (hstarts : ∀ a item, P a item → ∃ t rest, item = t :: rest ∧
      t.kind ∉ [Kind.rightParen, .rightBracket, .rightBrace])
    (hP : ∀ a item k item', P a item → Trims k item item' → Q a item')
    (htrims : Trims k ts us) : Listed Q as us := by
  obtain ⟨items, rfl, hitems, hsep⟩ := h
  induction items generalizing ts us with
  | nil =>
    cases hsep
    rw [htrims.eq_nil]
    exact .nil
  | cons i items ih =>
    have hi := hitems i (by simp)
    have hothers : ∀ j ∈ items, P j.1 j.2 := fun j hj => hitems j (List.mem_cons_of_mem i hj)
    rw [List.map_cons] at hsep
    generalize hrest : items.map (·.2) = rest at hsep
    cases hsep with
    | last =>
      obtain rfl := List.map_eq_nil_iff.1 hrest
      exact .single (hP _ _ _ _ hi htrims)
    | comma _ hc hsep =>
      subst hrest
      obtain ⟨item', ws, rfl, hitem, hws⟩ := htrims.append_split
      have hi' := hP _ _ _ _ hi hitem
      -- If the comma has gone, no item stood behind it: none starts with a closing token.
      cases hws with
      | keep _ h => exact .cons hi' hc (ih h hothers hsep)
      | drop hidle h =>
        cases items with
        | nil =>
          cases hsep
          rw [h.eq_nil, List.append_nil]
          exact .single hi'
        | cons j items =>
          obtain ⟨t, rest, hj, ht⟩ := hstarts _ _ (hothers j (by simp))
          rw [List.map_cons, hj] at hsep
          obtain ⟨vs, rfl⟩ := hsep.cons_eq
          rcases hidle with ⟨hk, -⟩ | ⟨-, hnext⟩
          · rw [hc] at hk
            cases hk
          · exact absurd hnext ht

/-! ## Phrases -/

/-- A phrase starts with no closing token. -/
theorem Phrase.Spells.starts_open {p : Phrase} (h : p.Spells ts) : ∃ t rest, ts = t :: rest ∧
    t.kind ∉ [Kind.rightParen, .rightBracket, .rightBrace] := by
  obtain ⟨t, rest, rfl, ht⟩ := h.starts
  refine ⟨t, rest, rfl, ?_⟩
  have hopen : ∀ kind ∈ Tier.assignment.starters,
      kind ∉ [Kind.rightParen, .rightBracket, .rightBrace] := by decide
  refine hopen t.kind ?_
  cases p with
  | expression tier _ =>
    have hsub : ∀ kind ∈ tier.starters, kind ∈ Tier.assignment.starters := by
      cases tier <;> decide
    exact hsub t.kind ht
  | entry _ =>
    rw [List.mem_singleton.1 ht]
    decide

/-- Phrases in a list are the same without the tokens that may be left out, if each of them is. -/
theorem Phrase.listed_trims {α : Type} (phrase : α → Phrase) {items : List (α × List Token)}
    (hspells : ∀ i ∈ items, (phrase i.1).Spells i.2)
    (htrims : ∀ i ∈ items, ∀ {k item'}, Trims k i.2 item' → (phrase i.1).Spells item')
    (hsep : Separated (items.map (·.2)) ts) (h : Trims k ts us) :
    Listed (fun a item => (phrase a).Spells item) (items.map (·.1)) us := by
  have hlisted : Listed (fun a item => (phrase a).Spells item ∧
      ∀ {k item'}, Trims k item item' → (phrase a).Spells item') (items.map (·.1)) ts :=
    ⟨items, rfl, fun i hi => ⟨hspells i hi, htrims i hi⟩, hsep⟩
  refine hlisted.trims ?_ ?_ h
  · exact fun a item ⟨h, _⟩ => h.starts_open
  · exact fun a item k item' ⟨_, htrims⟩ h => htrims h

/-- What spells a phrase spells it without the tokens that may be left out, whatever stands behind
it. -/
theorem Phrase.Spells.trims {p : Phrase} (h : p.Spells ts) (htrims : Trims k ts us) :
    p.Spells us := by
  -- No token of a phrase's own is a comma or a semicolon; those of its lists are left to the lists.
  induction h generalizing k us with
  | looser _ ih => exact .looser (ih htrims)
  | identifier ht =>
    rw [htrims.singleton_eq (by rw [ht]; decide)]
    exact .identifier ht
  | number ht hvalue =>
    rw [htrims.singleton_eq (by rw [ht]; decide)]
    exact .number ht hvalue
  | string ht =>
    rw [htrims.singleton_eq (by rw [ht]; decide)]
    exact .string ht
  | shorthand ht =>
    rw [htrims.singleton_eq (by rw [ht]; decide)]
    exact .shorthand ht
  | parens hl _ hr ih =>
    obtain ⟨ts', rfl, hts⟩ := htrims.delimited_split (by rw [hl]; decide) (by rw [hr]; decide)
    exact .parens hl (ih hts) hr
  | array hl hspells hsep hr ih =>
    obtain ⟨ts', rfl, hts⟩ := htrims.delimited_split (by rw [hl]; decide) (by rw [hr]; decide)
    obtain ⟨items', hitems, hspells', hsep'⟩ :=
      listed_trims (.expression .assignment) hspells ih hsep hts
    rw [hitems]
    exact .array hl hspells' hsep' hr
  | object hl hspells hsep hr ih =>
    obtain ⟨ts', rfl, hts⟩ := htrims.delimited_split (by rw [hl]; decide) (by rw [hr]; decide)
    obtain ⟨items', hitems, hspells', hsep'⟩ := listed_trims .entry hspells ih hsep hts
    rw [hitems]
    exact .object hl hspells' hsep' hr
  | dot _ hd hkey ih =>
    obtain ⟨ts', ws, rfl, hts, hws⟩ := htrims.append_split
    obtain ⟨_, rfl, hkeys⟩ := hws.cons_split (by rw [hd]; decide)
    rw [hkeys.singleton_eq (by rw [hkey]; decide)]
    exact .dot (ih hts) hd hkey
  | bracket _ hl _ hr ih ih' =>
    obtain ⟨ts', ws, rfl, hts, hws⟩ := htrims.append_split
    obtain ⟨us', rfl, hus⟩ := hws.delimited_split (by rw [hl]; decide) (by rw [hr]; decide)
    exact .bracket (ih hts) hl (ih' hus) hr
  | call _ hl hspells hsep hr ih ih' =>
    obtain ⟨ts', ws, rfl, hts, hws⟩ := htrims.append_split
    obtain ⟨us', rfl, hus⟩ := hws.delimited_split (by rw [hl]; decide) (by rw [hr]; decide)
    obtain ⟨items', hitems, hspells', hsep'⟩ :=
      listed_trims (.expression .assignment) hspells ih' hsep hus
    rw [hitems]
    exact .call (ih hts) hl hspells' hsep' hr
  | @binary operator _ _ _ _ _ _ ht _ ih ih' =>
    obtain ⟨ts', ws, rfl, hts, hws⟩ := htrims.append_split
    obtain ⟨us', rfl, hus⟩ := hws.cons_split (by rw [ht]; cases operator <;> decide)
    exact .binary (ih hts) ht (ih' hus)
  | assign _ ht _ ih ih' =>
    obtain ⟨ts', ws, rfl, hts, hws⟩ := htrims.append_split
    obtain ⟨us', rfl, hus⟩ := hws.cons_split (by rw [ht]; decide)
    exact .assign (ih hts) ht (ih' hus)
  | pair hkey hc _ ih =>
    obtain ⟨_, rfl, hrest⟩ := htrims.cons_split (by rw [hkey]; decide)
    obtain ⟨ts', rfl, hts⟩ := hrest.cons_split (by rw [hc]; decide)
    exact .pair hkey hc (ih hts)

/-- Parameters in a list are the same without the last comma. -/
theorem Separated.trims_names {params : List Token} (hparams : ∀ p ∈ params, p.kind = .identifier)
    (hsep : Separated (params.map ([·])) ts) (h : Trims k ts us) :
    Separated (params.map ([·])) us := by
  have hlisted : Listed (fun p item => item = [p] ∧ p.kind = .identifier) params ts := by
    refine ⟨params.map fun p => (p, [p]), ?_, by simpa using hparams, ?_⟩
    · rw [List.map_map]
      exact (List.map_id params).symm
    · rw [List.map_map]
      exact hsep
  have htrimmed : Listed (fun p item => item = [p]) params us := by
    refine hlisted.trims ?_ ?_ h
    · rintro p _ ⟨rfl, hp⟩
      exact ⟨p, [], rfl, by rw [hp]; decide⟩
    · rintro p _ k item' ⟨rfl, hp⟩ hitem
      exact hitem.singleton_eq (by rw [hp]; decide)
  obtain ⟨items, rfl, hitems, hsep'⟩ := htrimmed
  have hnames : items.map (·.2) = (items.map (·.1)).map ([·]) := by
    rw [List.map_map]
    exact List.map_congr_left hitems
  exact hnames ▸ hsep'

/-! ## Statements -/

/-- Behind a statement, a body or a block stands what follows a statement, or a semicolon or an
`else` that belongs to a statement around it. -/
def Kind.Trails (kind : Kind) : Prop :=
  kind.Follows ∨ kind = .elseKeyword ∨ kind = .semicolon

namespace Portion.Parses

variable {p : Portion}

/-- The first token of a portion that is no sequence stays the first. -/
theorem trims_ahead (h : p.Parses ts k) (hp : ∀ ss, p ≠ .sequence ss) (htrims : Trims k' ts us)
    (behind : Kind) : behind.ahead us = behind.ahead ts := by
  obtain ⟨ss, rfl⟩ | ⟨t, ts, rfl, ht⟩ := h.starts
  · exact absurd rfl (hp ss)
  · exact htrims.ahead_eq ht behind

/-- So does that of a sequence, or the token behind it if the sequence is empty. -/
theorem trims_ahead_sequence {ss : List Stmt} (h : (sequence ss).Parses ts k)
    (htrims : Trims k ts us) : k.ahead us = k.ahead ts := by
  cases h with
  | empty _ => rw [htrims.eq_nil]
  | next hs _ =>
    obtain ⟨vs, ws, rfl, hvs, -⟩ := htrims.append_split
    rw [Kind.ahead_append, Kind.ahead_append]
    obtain ⟨_, ⟨⟩⟩ | ⟨t, vs, rfl, ht⟩ := hs.starts
    exact hvs.ahead_eq ht _

/-- A statement without its semicolon is one in front of a token in front of which the semicolon may
be left out. -/
theorem drop_semicolon {s : Stmt} (h : (bare s).Parses ts .semicolon) (hk : k.Trails)
    (hnext : k ∉ [Kind.leftParen, .leftBracket, .elseKeyword, .semicolon]) :
    (statement s).Parses ts k := by
  simp only [List.mem_cons, List.not_mem_nil, or_false, not_or] at hnext
  obtain ⟨hparen, hbracket, helse, hsemi⟩ := hnext
  have hfollows : k.Follows := hk.resolve_right (not_or.2 ⟨helse, hsemi⟩)
  refine .unterminated (h.change_ahead (by simp) helse hsemi (.inr ?_)) hsemi
  exact hfollows.stops hparen hbracket

theorem trims_ends {kind : Kind} (h : kind.Ends ts) (htrims : Trims k ts us) : kind.Ends us :=
  h.imp_right (And.imp_right (htrims.endsWith (by decide)))

/-- What parses as a portion parses as it without the tokens that may be left out. -/
theorem trims (h : p.Parses ts k) (hk : k.Trails) (htrims : Trims k ts us) : p.Parses us k := by
  -- Each part is trimmed in front of the token that stood behind it, of which the kind is kept.
  induction h generalizing us with
  | unterminated _ hne ih => exact .unterminated (ih hk htrims) hne
  | @terminated s ts t k _ ht ih =>
    obtain ⟨ts', ws, rfl, hts, hws⟩ := htrims.append_split
    have hts : Trims .semicolon ts ts' := ht ▸ (show Trims t.kind ts ts' from hts)
    have hbare := ih (.inr (.inr rfl)) hts
    cases hws with
    | keep _ hnil =>
      rw [hnil.eq_nil]
      exact .terminated hbare ht
    | drop hidle hnil =>
      rw [hnil.eq_nil, List.append_nil]
      -- What stands behind the semicolon is now behind the statement itself.
      rcases hidle with ⟨-, hnext⟩ | ⟨hcomma, -⟩
      · exact drop_semicolon hbare hk hnext
      · rw [ht] at hcomma
        cases hcomma
  | letAlone hkeyword hname hne =>
    obtain ⟨_, rfl, hnames⟩ := htrims.cons_split (by rw [hkeyword]; decide)
    rw [hnames.singleton_eq (by rw [hname]; decide)]
    exact .letAlone hkeyword hname hne
  | @declare mutability _ _ _ _ _ _ hkeyword hname ht hinit hends =>
    obtain ⟨_, rfl, h₁⟩ := htrims.cons_split (by rw [hkeyword]; cases mutability <;> decide)
    obtain ⟨_, rfl, h₂⟩ := h₁.cons_split (by rw [hname]; decide)
    obtain ⟨ts', rfl, hts⟩ := h₂.cons_split (by rw [ht]; decide)
    exact .declare hkeyword hname ht (hinit.trims hts) (trims_ends hends hts)
  | function hkeyword hname hl hparams hsep hr _ ih =>
    obtain ⟨_, rfl, h₁⟩ := htrims.cons_split (by rw [hkeyword]; decide)
    obtain ⟨_, rfl, h₂⟩ := h₁.cons_split (by rw [hname]; decide)
    obtain ⟨_, rfl, h₃⟩ := h₂.cons_split (by rw [hl]; decide)
    obtain ⟨ts', _, rfl, hts, h₄⟩ := h₃.append_split
    obtain ⟨us', rfl, hus⟩ := h₄.cons_split (by rw [hr]; decide)
    exact .function hkeyword hname hl hparams (hsep.trims_names hparams hts) hr (ih hk hus)
  | branch hkeyword hcondition hends hthen hne ih =>
    obtain ⟨_, rfl, h₁⟩ := htrims.cons_split (by rw [hkeyword]; decide)
    obtain ⟨ts', us', rfl, hts, hus⟩ := h₁.append_split
    refine .branch hkeyword (hcondition.trims hts) ?_ (ih hk hus) hne
    rw [hthen.trims_ahead (by simp) hus]
    exact trims_ends hends hts
  | branchElse hkeyword hcondition hends hthen ht helse ih ih' =>
    obtain ⟨_, rfl, h₁⟩ := htrims.cons_split (by rw [hkeyword]; decide)
    obtain ⟨ts', _, rfl, hts, h₂⟩ := h₁.append_split
    obtain ⟨us', _, rfl, hus, h₃⟩ := h₂.append_split
    obtain ⟨vs', rfl, hvs⟩ := h₃.cons_split (by rw [ht]; decide)
    rw [Kind.ahead, ht] at hus
    refine .branchElse hkeyword (hcondition.trims hts) ?_ (ih (.inr (.inl rfl)) hus) ht (ih' hk hvs)
    rw [hthen.trims_ahead (by simp) hus]
    exact trims_ends hends hts
  | loop hkeyword hcondition hends hbody ih =>
    obtain ⟨_, rfl, h₁⟩ := htrims.cons_split (by rw [hkeyword]; decide)
    obtain ⟨ts', us', rfl, hts, hus⟩ := h₁.append_split
    refine .loop hkeyword (hcondition.trims hts) ?_ (ih hk hus)
    rw [hbody.trims_ahead (by simp) hus]
    exact trims_ends hends hts
  | importPath hkeyword hpath =>
    obtain ⟨_, rfl, hpaths⟩ := htrims.cons_split (by rw [hkeyword]; decide)
    rw [hpaths.singleton_eq (by rw [hpath]; decide)]
    exact .importPath hkeyword hpath
  | expression he hends => exact .expression (he.trims htrims) (trims_ends hends htrims)
  | block hl _ hr ih =>
    obtain ⟨ts', rfl, hts⟩ := htrims.delimited_split (by rw [hl]; decide) (by rw [hr]; decide)
    rw [hr] at hts
    exact .block hl (ih (.inl (.inr (.inl rfl))) hts) hr
  | braced _ ih => exact .braced (ih hk htrims)
  | single hs ht ih =>
    have hs' := ih hk htrims
    obtain ⟨_, ⟨⟩⟩ | ⟨u, us, rfl, -⟩ := hs'.starts
    have hkind : u.kind = _ := hs.trims_ahead (by simp) htrims .endOfInput
    exact .single hs' (ne_of_eq_of_ne hkind ht)
  | empty hclose =>
    rw [htrims.eq_nil]
    exact .empty hclose
  | next _ hothers ih ih' =>
    obtain ⟨ts', us', rfl, hts, hus⟩ := htrims.append_split
    have hs := ih (.inl hothers.follows) hts
    -- The statements behind may have lost tokens as well, but not the first one.
    rw [← hothers.trims_ahead_sequence hus] at hs
    exact .next hs (ih' hk hus)

end Portion.Parses

/-! ## Programs -/

/-- Semicolons and last commas that may be left out do not matter: with any number of them left out
at once, tokens that are read as a program are read as the same program. -/
theorem Program.ofTokens_trims {tokens tokens' : List Token} {program : Program}
    (h : Program.ofTokens tokens = .ok program) (htrims : Trims .endOfInput tokens tokens') :
    Program.ofTokens tokens' = .ok program := by
  rw [ofTokens_eq_ok_iff] at h ⊢
  exact h.trims (.inl (.inr (.inr rfl))) htrims.takeWhile

/-- Of the punctuation of `while a b;; c([d,],);` one semicolon behind the loop is enough. -/
theorem Program.ofTokens_trims_loop :
    let t (kind : Kind) (text : String) : Token := ⟨kind, text, ⟨0, 0⟩⟩
    let tokens := [t .whileKeyword "while", t .identifier "a", t .identifier "b", t .semicolon ";",
      t .semicolon ";", t .identifier "c", t .leftParen "(", t .leftBracket "[", t .identifier "d",
      t .comma ",", t .rightBracket "]", t .comma ",", t .rightParen ")", t .semicolon ";",
      t .endOfInput ""]
    let tokens' := [t .whileKeyword "while", t .identifier "a", t .identifier "b",
      t .semicolon ";", t .identifier "c", t .leftParen "(", t .leftBracket "[",
      t .identifier "d", t .rightBracket "]", t .rightParen ")", t .endOfInput ""]
    Trims .endOfInput tokens tokens' ∧ Program.ofTokens tokens' = .ok
      [.loop (.identifier "a") [.expression (.identifier "b")],
        .expression (.call (.identifier "c") [.array [.identifier "d"]])] := by
  intro t tokens tokens'
  have htrims : Trims .endOfInput tokens tokens' :=
    .keep _ <| .keep _ <| .keep _ <| .keep _ <| .drop (by decide) <| .keep _ <| .keep _ <|
      .keep _ <| .keep _ <| .drop (by decide) <| .keep _ <| .drop (by decide) <| .keep _ <|
      .drop (by decide) <| .keep _ .nil
  exact ⟨htrims, Program.ofTokens_trims rfl htrims⟩

end DialectScript
