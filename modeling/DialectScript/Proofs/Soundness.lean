import DialectScript.Proofs.Reading

/-!
# What is read is spelled

**Theorem (`Program.ofTokens_spells`).** If a list of tokens is read as a program, then the tokens
before its first end marker, all of them and in order, spell that program.

The proof is an induction on the bound of the readers (`Sound`, `StatementSound`): whatever a
reader takes spells what it returns. A loop returns a longer phrase than it takes, so its case is
stated with the tokens that were taken before it. For an `else` and for a semicolon the induction
has to say more: what could still take one is only ever left in front of another token
(`NothingLeft`).
-/

namespace DialectScript

namespace Grammar

open Reader

variable {marker : Token}

/-! ## Expressions -/

/-- What the readers of expressions take spells what they return. -/
structure Sound (marker : Token) (n : Nat) : Prop where
  expression : ∀ ts, (expression n marker ts).Takes ts fun e us _ =>
    Phrase.Spells (.expression .assignment e) us
  unassigned : ∀ ts, (unassigned n marker ts).Takes ts fun e us _ =>
    Phrase.Spells (.expression .object e) us
  properties : ∀ ts, (properties n marker ts).Takes ts fun ps us _ =>
    Listed (fun p vs => Phrase.Spells (.entry p) vs) ps us
  property : ∀ ts, (property n marker ts).Takes ts fun p us _ => Phrase.Spells (.entry p) us
  binary : ∀ tier : Tier, tier.IsChain → ∀ ts,
    (binary n tier.levels marker ts).Takes ts fun e us _ => Phrase.Spells (.expression tier e) us
  chain : ∀ (tier : Tier) level tighter, tier.IsChain → tier.levels = level :: tighter →
    ∀ left before, Phrase.Spells (.expression tier left) before → ∀ ts,
    (chain n level tighter left marker ts).Takes ts fun e us _ =>
      Phrase.Spells (.expression tier e) (before ++ us)
  suffixed : ∀ ts, (suffixed n marker ts).Takes ts fun e us _ =>
    Phrase.Spells (.expression .suffixed e) us
  suffixes : ∀ base before, Phrase.Spells (.expression .suffixed base) before → ∀ ts,
    (suffixes n base marker ts).Takes ts fun e us _ =>
      Phrase.Spells (.expression .suffixed e) (before ++ us)
  primary : ∀ ts, (primary n marker ts).Takes ts fun e us _ =>
    Phrase.Spells (.expression .primary e) us
  expressions : ∀ close ts, (expressions n close marker ts).Takes ts fun es us _ =>
    Listed (fun e vs => Phrase.Spells (.expression .assignment e) vs) es us

theorem parameters_takes (hm : marker.kind = .endOfInput) (n : Nat) (ts : List Token) :
    (parameters n marker ts).Takes ts fun names us _ =>
      ∃ params : List Token, names = params.map (·.text) ∧
        (∀ p ∈ params, p.kind = .identifier) ∧ Separated (params.map ([·])) us := by
  induction n generalizing ts with
  | zero => trivial
  | succ n ih =>
    rw [parameters]
    apply takes_peek
    by_cases hclose : (next marker ts).kind = .rightParen
    · rw [if_pos hclose]
      exact takes_pure ⟨[], rfl, by simp, .none⟩
    · rw [if_neg hclose]
      by_cases hk : (next marker ts).kind = .identifier
      · rw [if_pos hk]
        apply takes_take hm (by rw [hk]; decide)
        generalize next marker ts = t at hk
        -- Behind a comma the list goes on, if only to its end.
        apply takes_accept hm (by decide)
        · intro hc
          refine takes_bind (ih _) fun names used rest hnames => ?_
          obtain ⟨params, rfl, hparams, hsep⟩ := hnames
          refine takes_pure ⟨t :: params, rfl, by simpa [hk] using hparams, ?_⟩
          rw [List.append_nil]
          exact .comma [t] hc hsep
        · intro _
          exact takes_pure ⟨[t], rfl, by simpa using hk, .last [t]⟩
      · rw [if_neg hk]
        trivial

namespace Sound

variable {n : Nat}

theorem expression_succ (hm : marker.kind = .endOfInput) (ih : Sound marker n)
    (ts : List Token) : (Grammar.expression (n + 1) marker ts).Takes ts fun e us _ =>
      Phrase.Spells (.expression .assignment e) us := by
  rw [Grammar.expression]
  refine takes_bind (ih.unassigned ts) fun target us rest htarget => ?_
  apply takes_accept hm (by decide)
  · intro ht
    refine takes_bind (ih.expression _) fun value vs rest' hvalue => ?_
    apply takes_pure
    rw [List.append_nil]
    exact .assign htarget ht hvalue
  · intro _
    apply takes_pure
    rw [List.append_nil]
    exact .looser htarget

theorem unassigned_succ (hm : marker.kind = .endOfInput) (ih : Sound marker n)
    (ts : List Token) : (Grammar.unassigned (n + 1) marker ts).Takes ts fun e us _ =>
      Phrase.Spells (.expression .object e) us := by
  rw [Grammar.unassigned]
  apply takes_accept hm (by decide)
  · intro hl
    refine takes_bind (ih.properties _) fun entries us rest hentries => ?_
    apply takes_expect hm (by decide)
    intro hr
    apply takes_pure
    obtain ⟨items, rfl, hitems, hsep⟩ := hentries
    exact .object hl hitems hsep hr
  · intro _
    exact takes_mono (ih.binary .disjunction (by decide) ts) fun e us rest he => .looser he

theorem properties_succ (hm : marker.kind = .endOfInput) (ih : Sound marker n)
    (ts : List Token) : (Grammar.properties (n + 1) marker ts).Takes ts fun ps us _ =>
      Listed (fun p vs => Phrase.Spells (.entry p) vs) ps us := by
  rw [properties_eq_items]
  exact takes_items hm ih.property ih.properties

theorem property_succ (hm : marker.kind = .endOfInput) (ih : Sound marker n)
    (ts : List Token) : (Grammar.property (n + 1) marker ts).Takes ts fun p us _ =>
      Phrase.Spells (.entry p) us := by
  rw [Grammar.property]
  apply takes_name hm
  intro hkey
  apply takes_accept hm (by decide)
  · intro hc
    refine takes_bind (ih.expression _) fun value us rest hvalue => ?_
    apply takes_pure
    rw [List.append_nil]
    exact .pair hkey hc hvalue
  · intro _
    exact takes_pure (.shorthand hkey)

theorem binary_succ (ih : Sound marker n) (tier : Tier) (ht : tier.IsChain) (ts : List Token) :
    (Grammar.binary (n + 1) tier.levels marker ts).Takes ts fun e us _ =>
      Phrase.Spells (.expression tier e) us := by
  cases hlevels : tier.levels with
  | nil =>
    obtain rfl := Tier.levels_eq_nil ht hlevels
    rw [Grammar.binary]
    exact ih.suffixed ts
  | cons level tighter =>
    obtain ⟨htighter, rfl, -⟩ := Tier.levels_eq_cons ht hlevels
    rw [Grammar.binary]
    refine takes_bind (ih.binary tier.tighter htighter ts) fun left us rest hleft => ?_
    exact ih.chain tier level _ ht hlevels left us (.looser hleft) rest

theorem chain_succ (hm : marker.kind = .endOfInput) (ih : Sound marker n) (tier : Tier)
    (level : Operator.Level) (tighter : List Operator.Level) (ht : tier.IsChain)
    (hlevels : tier.levels = level :: tighter) (left : Expr) (before : List Token)
    (hleft : Phrase.Spells (.expression tier left) before) (ts : List Token) :
    (Grammar.chain (n + 1) level tighter left marker ts).Takes ts fun e us _ =>
      Phrase.Spells (.expression tier e) (before ++ us) := by
  obtain ⟨htighter, rfl, hlevel⟩ := Tier.levels_eq_cons ht hlevels
  rw [Grammar.chain]
  apply takes_peek
  cases hop : level (next marker ts).kind with
  | none =>
    apply takes_pure
    rw [List.append_nil]
    exact hleft
  | some operator =>
    obtain ⟨rfl, hkind⟩ := (hlevel _ _).1 hop
    apply takes_take hm (by rw [← hkind]; cases operator <;> decide)
    generalize next marker ts = t at hkind
    refine takes_bind (ih.binary _ htighter _) fun right us rest hright => ?_
    have hmore := ih.chain operator.tier level _ ht hlevels (.binary operator left right) _
      (.binary hleft hkind.symm hright) rest
    exact takes_mono hmore fun e vs rest' he => by simpa using he

theorem suffixed_succ (ih : Sound marker n) (ts : List Token) :
    (Grammar.suffixed (n + 1) marker ts).Takes ts fun e us _ =>
      Phrase.Spells (.expression .suffixed e) us := by
  rw [Grammar.suffixed]
  refine takes_bind (ih.primary ts) fun base us rest hbase => ?_
  exact ih.suffixes base us (.looser hbase) rest

theorem suffixes_succ (hm : marker.kind = .endOfInput) (ih : Sound marker n) (base : Expr)
    (before : List Token) (hbase : Phrase.Spells (.expression .suffixed base) before)
    (ts : List Token) :
    (Grammar.suffixes (n + 1) base marker ts).Takes ts fun e us _ =>
      Phrase.Spells (.expression .suffixed e) (before ++ us) := by
  rw [Grammar.suffixes]
  apply takes_peek
  -- Each suffix adds itself to what is spelled already, and the next one starts from there.
  cases hk : (next marker ts).kind with
  | dot =>
    apply takes_take hm (by rw [hk]; decide)
    generalize next marker ts = d at hk
    apply takes_name hm
    intro hkey
    have hmore := ih.suffixes _ _ (.dot hbase hk hkey) ts.tail.tail
    exact takes_mono hmore fun e us rest he => by simpa using he
  | leftBracket =>
    apply takes_take hm (by rw [hk]; decide)
    generalize next marker ts = l at hk
    refine takes_bind (ih.expression _) fun index us rest hindex => ?_
    apply takes_expect hm (by decide)
    intro hr
    have hmore := ih.suffixes _ _ (.bracket hbase hk hindex hr) rest.tail
    exact takes_mono hmore fun e vs rest' he => by simpa using he
  | leftParen =>
    apply takes_take hm (by rw [hk]; decide)
    generalize next marker ts = l at hk
    refine takes_bind (ih.expressions .rightParen _) fun args us rest hargs => ?_
    apply takes_expect hm (by decide)
    intro hr
    obtain ⟨items, rfl, hitems, hsep⟩ := hargs
    have hmore := ih.suffixes _ _ (.call hbase hk hitems hsep hr) rest.tail
    exact takes_mono hmore fun e vs rest' he => by simpa using he
  | _ =>
    apply takes_pure
    rw [List.append_nil]
    exact hbase

theorem primary_succ (hm : marker.kind = .endOfInput) (ih : Sound marker n)
    (ts : List Token) : (Grammar.primary (n + 1) marker ts).Takes ts fun e us _ =>
      Phrase.Spells (.expression .primary e) us := by
  rw [Grammar.primary]
  apply takes_peek
  cases hk : (next marker ts).kind with
  | identifier =>
    apply takes_take hm (by rw [hk]; decide)
    exact takes_pure (.identifier hk)
  | number =>
    apply takes_take hm (by rw [hk]; decide)
    cases hvalue : Numeral.value? (next marker ts).text with
    | none => trivial
    | some value => exact takes_pure (.number hk hvalue)
  | string =>
    apply takes_take hm (by rw [hk]; decide)
    exact takes_pure (.string hk)
  | leftParen =>
    apply takes_take hm (by rw [hk]; decide)
    refine takes_bind (ih.expression _) fun inner us rest hinner => ?_
    apply takes_expect hm (by decide)
    intro hr
    exact takes_pure (.parens hk hinner hr)
  | leftBracket =>
    apply takes_take hm (by rw [hk]; decide)
    refine takes_bind (ih.expressions .rightBracket _) fun elements us rest helements => ?_
    apply takes_expect hm (by decide)
    intro hr
    apply takes_pure
    obtain ⟨items, rfl, hitems, hsep⟩ := helements
    exact .array hk hitems hsep hr
  | _ => trivial

theorem expressions_succ (hm : marker.kind = .endOfInput) (ih : Sound marker n) (close : Kind)
    (ts : List Token) : (Grammar.expressions (n + 1) close marker ts).Takes ts fun es us _ =>
      Listed (fun e vs => Phrase.Spells (.expression .assignment e) vs) es us := by
  rw [expressions_eq_items]
  exact takes_items hm ih.expression (ih.expressions close)

end Sound

/-- With any bound, the readers of expressions take what they return. -/
theorem sound (hm : marker.kind = .endOfInput) (n : Nat) : Sound marker n := by
  induction n with
  | zero => constructor <;> intros <;> trivial
  | succ n ih =>
    exact
      { expression := ih.expression_succ hm
        unassigned := ih.unassigned_succ hm
        properties := ih.properties_succ hm
        property := ih.property_succ hm
        binary := ih.binary_succ
        chain := ih.chain_succ hm
        suffixed := ih.suffixed_succ
        suffixes := ih.suffixes_succ hm
        primary := ih.primary_succ hm
        expressions := ih.expressions_succ hm }

/-! ## Statements -/

/-- No token comes next that would belong to a part of what has the edge. -/
structure NothingLeft (marker : Token) (edge : Edge) (rest : List Token) : Prop where
  elseKeyword : edge.dangling = true → (next marker rest).kind ≠ .elseKeyword
  semicolon : edge.unfinished = true → (next marker rest).kind ≠ .semicolon

/-- What the readers of statements take spells what they return, and no `else` and no semicolon that
could belong to a part of it is left behind. -/
structure StatementSound (marker : Token) (n : Nat) : Prop where
  statement : ∀ ts, (statement n marker ts).Takes ts fun s us rest =>
    ∃ edge, Clause.Spells .free (.statement edge s) us ∧ NothingLeft marker edge rest
  bareStatement : ∀ ts, (bareStatement n marker ts).Takes ts fun s us rest =>
    ∃ edge, Clause.Spells .free (.bare edge s) us ∧ NothingLeft marker edge rest
  body : ∀ ts, (body n marker ts).Takes ts fun ss us rest =>
    ∃ edge, Clause.Spells .free (.body edge ss) us ∧ NothingLeft marker edge rest
  block : ∀ ts, (block n marker ts).Takes ts fun ss us _ => Clause.Spells .free (.block ss) us
  statements : ∀ stop ts, (statements n stop marker ts).Takes ts fun ss us rest =>
    Clause.Spells .free (.sequence ss) us ∧
      ((next marker rest).kind = stop ∨ (next marker rest).kind = .endOfInput)

theorem nothingLeft_closed (rest : List Token) : NothingLeft marker .closed rest :=
  ⟨nofun, nofun⟩

namespace NothingLeft

variable {edge : Edge} {rest : List Token}

theorem not_dangling (h : NothingLeft marker edge rest)
    (hk : (next marker rest).kind = .elseKeyword) : edge.dangling = false :=
  Bool.eq_false_iff.2 fun hdangling => h.elseKeyword hdangling hk

theorem not_unfinished (h : NothingLeft marker edge rest)
    (hk : (next marker rest).kind = .semicolon) : edge.unfinished = false :=
  Bool.eq_false_iff.2 fun hunfinished => h.semicolon hunfinished hk

end NothingLeft

namespace StatementSound

variable {n : Nat}

theorem statement_succ (hm : marker.kind = .endOfInput) (ih : StatementSound marker n)
    (ts : List Token) : (Grammar.statement (n + 1) marker ts).Takes ts fun s us rest =>
      ∃ edge, Clause.Spells .free (.statement edge s) us ∧ NothingLeft marker edge rest := by
  rw [Grammar.statement]
  refine takes_bind (ih.bareStatement ts) fun s us rest hs => ?_
  obtain ⟨edge, hs, hedge⟩ := hs
  apply takes_accept hm (by decide)
  · intro ht
    exact takes_pure ⟨.closed, .terminated hs (hedge.not_unfinished ht) ht, nothingLeft_closed _⟩
  · intro hnext
    apply takes_pure
    rw [List.append_nil]
    exact ⟨_, .unterminated rfl hs, hedge.elseKeyword, fun _ => hnext⟩

theorem declare_takes (hm : marker.kind = .endOfInput) (mutability : Mutability) {k name : Token}
    (hk : k.kind = mutability.keyword) (hname : name.kind = .identifier) {t : Token}
    (ht : t.kind = .equals) (ts : List Token) :
    ((do
      let init ← Grammar.expression n
      return .declare mutability name.text (some init) : Reader Stmt) marker ts).Takes ts
        fun s us rest => ∃ edge, Clause.Spells .free (.bare edge s) (k :: name :: t :: us) ∧
          NothingLeft marker edge rest := by
  refine takes_bind ((sound hm n).expression ts) fun init us rest hinit => ?_
  apply takes_pure
  rw [List.append_nil]
  exact ⟨.closed, .declare hk hname ht hinit, nothingLeft_closed _⟩

theorem bareStatement_succ (hm : marker.kind = .endOfInput) (ih : StatementSound marker n)
    (ts : List Token) : (Grammar.bareStatement (n + 1) marker ts).Takes ts fun s us rest =>
      ∃ edge, Clause.Spells .free (.bare edge s) us ∧ NothingLeft marker edge rest := by
  have he := sound hm n
  rw [Grammar.bareStatement]
  apply takes_peek
  -- The edge of a statement is that of its last part, and closed if that is no body.
  cases hk : (next marker ts).kind with
  | letKeyword =>
    apply takes_take hm (by rw [hk]; decide)
    apply takes_expect hm (by decide)
    intro hname
    apply takes_accept hm (by decide)
    · intro ht
      exact declare_takes hm .mutable hk hname ht _
    · intro _
      exact takes_pure ⟨.closed, .letAlone hk hname, nothingLeft_closed _⟩
  | constKeyword =>
    apply takes_take hm (by rw [hk]; decide)
    apply takes_expect hm (by decide)
    intro hname
    apply takes_accept hm (by decide)
    · intro ht
      exact declare_takes hm .constant hk hname ht _
    · intro _
      trivial
  | functionKeyword =>
    apply takes_take hm (by rw [hk]; decide)
    apply takes_name hm
    intro hname
    apply takes_expect hm (by decide)
    intro hl
    refine takes_bind (parameters_takes hm n _) fun names us rest hnames => ?_
    obtain ⟨params, rfl, hparams, hsep⟩ := hnames
    apply takes_expect hm (by decide)
    intro hr
    refine takes_bind (ih.block _) fun statements vs rest' hbody => ?_
    apply takes_pure
    rw [List.append_nil]
    exact ⟨.closed, .function hk hname hl hparams hsep hr hbody, nothingLeft_closed _⟩
  | ifKeyword =>
    apply takes_take hm (by rw [hk]; decide)
    refine takes_bind (he.expression _) fun condition us rest hcondition => ?_
    refine takes_bind (ih.body rest) fun thenBody vs rest' hthen => ?_
    obtain ⟨edge, hthen, hedge⟩ := hthen
    -- An `else` that comes next is taken, so no branch at the end of the body has left it behind.
    apply takes_accept hm (by decide)
    · intro ht
      refine takes_bind (ih.body _) fun elseBody ws rest'' helse => ?_
      obtain ⟨edge', helse, hedge'⟩ := helse
      apply takes_pure
      rw [List.append_nil]
      exact ⟨edge', .branchElse hk hcondition hthen (hedge.not_dangling ht) ht helse, hedge'⟩
    · intro hnext
      apply takes_pure
      rw [List.append_nil]
      -- A branch is dangling without its `else`; whether it is unfinished is up to the body.
      exact ⟨_, .branch hk hcondition hthen, fun _ => hnext, hedge.semicolon⟩
  | whileKeyword =>
    apply takes_take hm (by rw [hk]; decide)
    refine takes_bind (he.expression _) fun condition us rest hcondition => ?_
    refine takes_bind (ih.body rest) fun statements vs rest' hbody => ?_
    obtain ⟨edge, hbody, hedge⟩ := hbody
    apply takes_pure
    rw [List.append_nil]
    exact ⟨edge, .loop hk hcondition hbody, hedge⟩
  | importKeyword =>
    apply takes_take hm (by rw [hk]; decide)
    apply takes_expect hm (by decide)
    intro hpath
    exact takes_pure ⟨.closed, .importPath hk hpath, nothingLeft_closed _⟩
  | _ =>
    refine takes_bind (he.expression ts) fun value us rest hvalue => ?_
    apply takes_pure
    rw [List.append_nil]
    exact ⟨.closed, .expression hvalue, nothingLeft_closed _⟩

theorem body_succ (ih : StatementSound marker n)
    (ts : List Token) : (Grammar.body (n + 1) marker ts).Takes ts fun ss us rest =>
      ∃ edge, Clause.Spells .free (.body edge ss) us ∧ NothingLeft marker edge rest := by
  rw [Grammar.body]
  apply takes_peek
  by_cases hk : (next marker ts).kind = .leftBrace
  · rw [if_pos hk]
    exact takes_mono (ih.block ts) fun ss us rest hss =>
      ⟨.closed, .braced hss, nothingLeft_closed _⟩
  · rw [if_neg hk]
    refine takes_bind (takes_eq (ih.statement ts)) fun s us rest hs => ?_
    obtain ⟨rfl, edge, hs, hedge⟩ := hs
    apply takes_pure
    rw [List.append_nil]
    obtain ⟨_, ⟨⟩⟩ | ⟨t, us, rfl, -⟩ := hs.starts
    exact ⟨edge, .single rfl hs hk, hedge⟩

theorem block_succ (hm : marker.kind = .endOfInput) (ih : StatementSound marker n)
    (ts : List Token) : (Grammar.block (n + 1) marker ts).Takes ts fun ss us _ =>
      Clause.Spells .free (.block ss) us := by
  rw [Grammar.block]
  apply takes_expect hm (by decide)
  intro hl
  refine takes_bind (ih.statements .rightBrace _) fun ss us rest hread => ?_
  obtain ⟨hss, -⟩ := hread
  apply takes_expect hm (by decide)
  intro hr
  exact takes_pure (.block hl hss hr)

theorem statements_succ (ih : StatementSound marker n) (stop : Kind) (ts : List Token) :
    (Grammar.statements (n + 1) stop marker ts).Takes ts fun ss us rest =>
      Clause.Spells .free (.sequence ss) us ∧
        ((next marker rest).kind = stop ∨ (next marker rest).kind = .endOfInput) := by
  rw [Grammar.statements]
  apply takes_peek
  by_cases hk : (next marker ts).kind = stop ∨ (next marker ts).kind = .endOfInput
  · rw [if_pos hk]
    exact takes_pure ⟨.empty, hk⟩
  · rw [if_neg hk]
    refine takes_bind (ih.statement ts) fun first us rest hfirst => ?_
    obtain ⟨edge, hfirst, -⟩ := hfirst
    refine takes_bind (ih.statements stop rest) fun others vs rest' hread => ?_
    obtain ⟨hothers, hstop⟩ := hread
    apply takes_pure
    rw [List.append_nil]
    exact ⟨.next hfirst hothers, hstop⟩

end StatementSound

/-- With any bound, the readers of statements take what they return. -/
theorem statementSound (hm : marker.kind = .endOfInput) (n : Nat) : StatementSound marker n := by
  induction n with
  | zero => constructor <;> intros <;> trivial
  | succ n ih =>
    exact
      { statement := ih.statement_succ hm
        bareStatement := ih.bareStatement_succ hm
        body := ih.body_succ
        block := ih.block_succ hm
        statements := ih.statements_succ }

end Grammar

/-! ## Programs -/

/-- The tokens of a program, up to the first end marker, spell it. -/
theorem Program.ofTokens_spells {tokens : List Token} {program : Program}
    (h : Program.ofTokens tokens = .ok program) :
    program.Spells .free (tokens.takeWhile (·.kind ≠ .endOfInput)) := by
  rw [Program.ofTokens] at h
  rw [← Token.splitAtEnd_fst]
  have hm := Token.splitAtEnd_marker tokens
  have hne : ∀ t ∈ (Token.splitAtEnd tokens).1, t.kind ≠ .endOfInput :=
    fun t => Token.kind_ne_of_mem_splitAtEnd
  generalize Token.splitAtEnd tokens = split at h hm hne ⊢
  obtain ⟨ahead, marker⟩ := split
  have hsound := (Grammar.statementSound hm (depthFor ahead.length)).statements .endOfInput ahead
  dsimp only at h
  cases hr : Grammar.statements (depthFor ahead.length) .endOfInput marker ahead with
  | done result rest =>
    rw [hr] at h hsound
    cases h
    obtain ⟨used, rfl, hspells, hend⟩ := hsound
    -- Reading stops at the end only, so nothing is left.
    have hrest : rest = [] := by
      cases rest with
      | nil => rfl
      | cons t rest => exact absurd (or_self_iff.1 hend) (hne t (by simp))
    rw [hrest, List.append_nil]
    exact hspells
  | failed error =>
    rw [hr] at h
    cases h
  | exhausted =>
    rw [hr] at h
    cases h

/-- The semicolon of `if a if b c; else d` is that of `c`, and the `else` that of the second
branch. -/
theorem Program.ofTokens_spells_nested :
    let t (kind : Kind) (text : String) : Token := ⟨kind, text, ⟨0, 0⟩⟩
    let tokens := [t .ifKeyword "if", t .identifier "a", t .ifKeyword "if", t .identifier "b",
      t .identifier "c", t .semicolon ";", t .elseKeyword "else", t .identifier "d",
      t .endOfInput ""]
    let program : Program := [.branch (.identifier "a") [.branch (.identifier "b")
      [.expression (.identifier "c")] (some [.expression (.identifier "d")])] none]
    Program.ofTokens tokens = .ok program ∧
      program.Spells .free (tokens.takeWhile (·.kind ≠ .endOfInput)) :=
  ⟨rfl, Program.ofTokens_spells rfl⟩

end DialectScript
