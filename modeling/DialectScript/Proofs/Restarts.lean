import Mathlib
import DialectScript.Proofs.Scanning

/-!
# Switching the dialect

A switch word is met (`Dialect.Meets`) if the scan comes to it from the start of the source under
the dialect that it leaves: then it is the first one, and no quote and no error stands in its way.

**Theorem (`tokenize_switch`).** If no switch word is met, the whole source is scanned under the one
dialect. Otherwise the result is that of scanning what follows the switch word, as a source of its
own and under the other dialect, with every place moved right by what stands before. The scan
comes to a text without a switch word after finitely many restarts.

A segment of the scan does not depend on where its text stands, but for the places that it records
(`Token.segment_move`). So the proof is an induction on the recursion of a segment and one on the
restarts; that a segment is left exactly at the switch word comes from the positions, of which
only one has nothing to pass.
-/

namespace DialectScript

open Lexeme Text

/-! ## Moving right -/

/-- The span further right by some bytes. -/
def Span.move (n : Nat) (s : Span) : Span := ⟨s.start + n, s.stop + n⟩

/-- The token with its place moved right. -/
def Token.move (n : Nat) (t : Token) : Token := { t with span := t.span.move n }

/-- The error with its place moved right. -/
def LexicalError.move (n : Nat) (e : LexicalError) : LexicalError :=
  { e with span := e.span.move n }

/-- What a scan ends with, every place moved right. -/
def LexicalError.moveScan (n : Nat) :
    Except LexicalError (List Token) → Except LexicalError (List Token)
  | .ok tokens => .ok (tokens.map (Token.move n))
  | .error e => .error (e.move n)

/-- What a segment ends with, every place moved right. -/
def Token.Segment.move (n : Nat) : Token.Segment → Token.Segment
  | .finished tokens => .finished (tokens.map (Token.move n))
  | .failed e => .failed (e.move n)
  | .switched target offset rest => .switched target (offset + n) rest

open LexicalError (moveScan)

theorem Span.ofRange_add {start stop n : Nat} (h : start ≤ stop) (hlimit : stop + n ≤ limit) :
    ofRange (start + n) (stop + n) = (ofRange start stop).move n := by
  rw [ofRange_eq_mk (by omega) hlimit, ofRange_eq_mk (by omega) (by omega)]
  rfl

theorem Token.endOfInput_add {offset n : Nat} (hlimit : offset + n ≤ Span.limit) :
    endOfInput (Span.clamp (offset + n)) = (endOfInput (Span.clamp offset)).move n := by
  rw [Span.clamp_eq_self hlimit, Span.clamp_eq_self (Nat.le_of_add_right_le hlimit)]
  rfl

namespace Token

variable {d target : Dialect} {offset n : Nat} {cs rest : List Char} {l : Lexeme} {kind : Kind}

theorem Segment.cons_move (t : Token) (s : Segment) :
    (s.cons t).move n = (s.move n).cons (t.move n) := by
  cases s <;> rfl

theorem byteLength_lexeme (hl : first? cs = some l) :
    byteLength l.chars + byteLength l.rest = byteLength cs := by
  rw [← byteLength_append, chars_append_rest hl]

/-! ## A segment that stands further right -/

/-- The token of a lexeme moves with what is behind it. -/
theorem segment_token_move {shape : Shape} (hlimit : offset + byteLength cs + n ≤ Span.limit)
    (hl : first? cs = some l) (hshape : l.shape = shape)
    (hkind : d.kind? shape l.chars = some kind)
    (ih : offset + byteLength l.chars + byteLength l.rest + n ≤ Span.limit →
      segment d (offset + byteLength l.chars + n) l.rest =
        (segment d (offset + byteLength l.chars) l.rest).move n) :
    segment d (offset + n) cs =
      Segment.move n ((segment d (offset + byteLength l.chars) l.rest).cons
        ⟨kind, shape.text l.chars, .ofRange offset (offset + byteLength l.chars)⟩) := by
  subst hshape
  rw [← byteLength_lexeme hl] at hlimit
  rw [segment_token hl hkind, Nat.add_right_comm, ih (by omega),
    Span.ofRange_add (by omega) (by omega), Segment.cons_move]
  rfl

/-- What a segment ends with does not depend on where its text stands, but for the places. -/
theorem segment_move (hlimit : offset + byteLength cs + n ≤ Span.limit) :
    segment d (offset + n) cs = (segment d offset cs).move n := by
  -- An offset stops at the limit, so in every case both runs have to stay below it.
  fun_induction segment d offset cs with
  | case1 offset =>
    rw [segment_end, endOfInput_add (by simpa using hlimit)]
    rfl
  | case2 offset c cs _ hnone =>
    rw [byteLength_cons] at hlimit
    rw [segment_unexpected hnone, Nat.add_right_comm, Span.ofRange_add (by omega) (by omega)]
    rfl
  | case3 offset cs l hl stop hshape ih =>
    rw [← byteLength_lexeme hl] at hlimit
    rw [segment_blank hl hshape, Nat.add_right_comm]
    exact ih (by omega)
  | case4 offset cs l hl stop span hshape =>
    rw [← byteLength_lexeme hl] at hlimit
    rw [segment_unterminated hl hshape, Nat.add_right_comm, Span.ofRange_add (by omega) (by omega)]
    rfl
  | case5 offset cs l hl stop span hshape ih | case6 offset cs l hl stop span hshape ih
  | case7 offset cs l hl stop span kind hshape ih =>
    exact segment_token_move hlimit hl hshape rfl ih
  | case8 offset cs l hl stop hshape target hswitch =>
    rw [segment_switch hl hshape hswitch, Nat.add_right_comm]
    rfl
  | case9 offset cs l hl stop span hshape kind hkeyword ih =>
    exact segment_token_move hlimit hl hshape (by simp [Dialect.kind?, hkeyword]) ih
  | case10 offset cs l hl stop span hshape hidentifier ih =>
    exact segment_token_move hlimit hl hshape (by simp [Dialect.kind?, hidentifier]) ih

end Token

/-! ## Where a segment ends -/

namespace Position

variable {source : String} {p q r : Position} {ts us : List Token}

theorem Traverses.dialect_eq (h : p.Traverses ts q) : q.dialect = p.dialect := by
  induction h with
  | refl => rfl
  | step hpasses _ ih =>
    obtain ⟨_, _, -, -, hdialect⟩ := hpasses.cuts
    exact ih.trans hdialect

/-- Of the positions that are passed, only the last one has nothing to pass. -/
theorem Traverses.end_unique (hq : p.Traverses ts q) (hr : p.Traverses us r)
    (hqstop : ∀ vs s, ¬ q.Passes vs s) (hrstop : ∀ vs s, ¬ r.Passes vs s) : q = r := by
  induction hq generalizing us with
  | refl p =>
    cases hr with
    | refl => rfl
    | step hpasses _ => exact absurd hpasses (hqstop _ _)
  | step hpasses _ ih =>
    cases hr with
    | refl => exact absurd hpasses (hrstop _ _)
    | step hpasses' hrest =>
      obtain rfl := next_rightUnique (.inl ⟨_, hpasses⟩) (.inl ⟨_, hpasses'⟩)
      exact ih hrest hqstop

end Position

/-- The scan of the source comes to the switch word of the dialect that it starts in, with nothing
but white space and tokens of that dialect before. -/
structure Dialect.Meets (d : Dialect) (source : String) (pre word post : List Char) : Prop where
  traverses : ∃ ts, (Position.start d source).Traverses ts ⟨d, pre, word ++ post⟩
  longest : Longest (word ++ post) .word word
  spells : Word.spells word d.switchWord = true

namespace Dialect.Meets

variable {d : Dialect} {source : String} {pre word post : List Char}

/-- A switch word that stands behind tokens of the first dialect is met. -/
theorem of_switches {ts : List Token} {q r : Position}
    (htraverses : (Position.start d source).Traverses ts q) (hswitches : q.Switches r) :
    ∃ word, d.Meets source q.before word r.after ∧ r.dialect = d.target ∧
      r.before = q.before ++ word := by
  have hdialect : q.dialect = d := htraverses.dialect_eq
  obtain ⟨word, hcuts, hspells, htarget⟩ := hswitches
  subst hdialect
  refine ⟨word, ⟨⟨ts, ?_⟩, ?_, hspells⟩, htarget, hcuts.before⟩
  · rw [← hcuts.after]
    exact htraverses
  · rw [← hcuts.after]
    exact hcuts.longest

theorem split (h : d.Meets source pre word post) : source.toList = pre ++ word ++ post := by
  obtain ⟨ts, htraverses⟩ := h.traverses
  have hin : _ = _ := Position.Reaches.in htraverses.reaches (Position.start_in d source)
  rw [List.append_assoc]
  exact hin.symm

theorem switches (h : d.Meets source pre word post) :
    Position.Switches ⟨d, pre, word ++ post⟩ ⟨d.target, pre ++ word, post⟩ :=
  ⟨word, ⟨h.longest, rfl, rfl⟩, h.spells, rfl⟩

theorem length_lt (h : d.Meets source pre word post) : post.length < source.toList.length := by
  have hpos := List.length_pos_iff.2 h.longest.allowed.ne_nil
  simp only [h.split, List.length_append]
  omega

end Dialect.Meets

namespace Token

variable {source : String} {p q r : Position} {ts : List Token} {s : Segment}

theorem Segment.Ends.not_passes (h : s.Ends source ts q) (us : List Token) (r : Position) :
    ¬ q.Passes us r := by
  cases s with
  | finished tokens => exact fun hpasses => Position.not_next_of_end h.1 (.inl ⟨_, hpasses⟩)
  | failed e => exact fun hpasses => Position.Fails.not_next h (.inl ⟨_, hpasses⟩)
  | switched target offset rest =>
    obtain ⟨_, hswitches, -⟩ := h
    exact fun hpasses => hpasses.not_switches hswitches

/-- The first segment of a source ends at the switch word if and only if it is met. -/
theorem segment_switched_iff (hsize : source.utf8ByteSize ≤ Span.limit) {d target : Dialect}
    {offset : Nat} {post : List Char} :
    segment d 0 source.toList = .switched target offset post ↔
      ∃ pre word, d.Meets source pre word post ∧ target = d.target ∧
        offset = byteLength (pre ++ word) := by
  obtain ⟨ts, q, htraverses, hends⟩ : Segment.Describes source (Position.start d source)
      (segment d 0 source.toList) := segment_describes hsize (Position.start_in d source) rfl
  have hstop := hends.not_passes
  constructor
  · intro h
    rw [h] at hends
    obtain ⟨r, hswitches, rfl, rfl, rfl⟩ := hends
    obtain ⟨word, hmeets, htarget, hbefore⟩ := Dialect.Meets.of_switches htraverses hswitches
    exact ⟨q.before, word, hmeets, htarget, by rw [hbefore]⟩
  · rintro ⟨pre, word, hmeets, rfl, rfl⟩
    obtain ⟨us, hus⟩ := hmeets.traverses
    -- The scan cannot come past a switch word, so the words from the start lead to this one alone.
    obtain rfl := htraverses.end_unique hus hstop fun _ _ hpasses =>
      hpasses.not_switches hmeets.switches
    cases hsegment : segment d 0 source.toList with
    | finished tokens =>
      rw [hsegment] at hends
      exact absurd (.inr hmeets.switches) (Position.not_next_of_end hends.1)
    | failed e =>
      rw [hsegment] at hends
      exact absurd (.inr hmeets.switches) (Position.Fails.not_next hends)
    | switched target offset rest =>
      rw [hsegment] at hends
      obtain ⟨r, hswitches, rfl, rfl, rfl⟩ := hends
      obtain rfl := Position.next_rightUnique (.inr hswitches) (.inr hmeets.switches)
      rfl

/-! ## The whole scan -/

theorem scanFrom_eq (d : Dialect) (offset : Nat) (cs : List Char) :
    scanFrom d offset cs =
      match segment d offset cs with
      | .finished tokens => .ok tokens
      | .failed e => .error e
      | .switched target offset rest => scanFrom target offset rest := by
  rw [scanFrom]
  split <;> simp_all

/-- The whole scan does not depend on where its text stands, but for the places. The induction is on
the restarts. -/
theorem scanFrom_move {d : Dialect} {before cs : List Char} {offset n : Nat}
    (hlimit : source.utf8ByteSize + n ≤ Span.limit) (hin : before ++ cs = source.toList)
    (hoffset : offset = byteLength before) :
    scanFrom d (offset + n) cs = moveScan n (scanFrom d offset cs) := by
  have hsize : source.utf8ByteSize ≤ Span.limit := Nat.le_of_add_right_le hlimit
  fun_induction scanFrom d offset cs generalizing before with
  | case1 d offset cs tokens hfinished =>
    rw [scanFrom_eq, segment_move (by rwa [hoffset, byteLength_add hin]), hfinished]
    rfl
  | case2 d offset cs e hfailed =>
    rw [scanFrom_eq, segment_move (by rwa [hoffset, byteLength_add hin]), hfailed]
    rfl
  | case3 d offset cs target offset' rest hswitched ih =>
    rw [scanFrom_eq, segment_move (by rwa [hoffset, byteLength_add hin]), hswitched]
    have hsegment : (segment d offset cs).Describes source ⟨d, before, cs⟩ :=
      segment_describes hsize hin hoffset
    rw [hswitched] at hsegment
    obtain ⟨ts, q, htraverses, r, hswitches, rfl, rfl, rfl⟩ := hsegment
    exact ih (Position.Reaches.in (htraverses.reaches.tail (.inr hswitches)) hin) rfl

end Token

/-! ## Restarts -/

/-- One restart: the scan of a text under a dialect is that of what follows its switch word. -/
def Dialect.Restart (scan next : Dialect × String) : Prop :=
  ∃ pre word post, scan.1.Meets scan.2 pre word post ∧ next = (scan.1.target, .ofList post)

/-- The restarts come to an end. -/
theorem Dialect.exists_last_restart (d : Dialect) (source : String) :
    ∃ last, Relation.ReflTransGen Restart (d, source) last ∧ ∀ next, ¬ Restart last next := by
  by_cases h : ∃ next, Restart (d, source) next
  · obtain ⟨next, hnext⟩ := h
    have hrestart := hnext
    obtain ⟨pre, word, post, hmeets, rfl⟩ := hnext
    have hlt := hmeets.length_lt
    obtain ⟨last, hlast, hstop⟩ := exists_last_restart d.target (.ofList post)
    exact ⟨last, .head hrestart hlast, hstop⟩
  · exact ⟨_, .refl, fun next hnext => h ⟨next, hnext⟩⟩
termination_by source.toList.length
decreasing_by simpa using hlt

/-- Without a switch word, a source is scanned under one dialect. Behind a switch word, the scan
starts afresh with what follows, and only moves the places. Either way it comes to an end. -/
theorem tokenize_switch (d : Dialect) (source : String) :
    (source.utf8ByteSize ≤ Span.limit →
      ((∀ pre word post, ¬ d.Meets source pre word post) →
        ∃ ts q, (Position.start d source).Traverses ts q ∧
          (q.after = [] ∧
              tokenize d source = .ok (ts ++ [Token.endOfInput source.utf8ByteSize]) ∨
            ∃ e, q.Fails source e ∧ tokenize d source = .error e)) ∧
      ∀ pre word post, d.Meets source pre word post →
        source.toList = pre ++ word ++ post ∧
        tokenize d source =
          moveScan (byteLength (pre ++ word)) (tokenize d.target (.ofList post))) ∧
    ∃ last, Relation.ReflTransGen Dialect.Restart (d, source) last ∧
      ∀ next, ¬ Dialect.Restart last next := by
  refine ⟨fun hsize => ⟨fun hnone => ?_, fun pre word post hmeets => ⟨hmeets.split, ?_⟩⟩,
    Dialect.exists_last_restart d source⟩
  · obtain ⟨ts, q, htraverses, hends⟩ : Token.Segment.Describes source (Position.start d source)
        (Token.segment d 0 source.toList) :=
      Token.segment_describes hsize (Position.start_in d source) rfl
    refine ⟨ts, q, htraverses, ?_⟩
    rw [tokenize, Token.scanFrom_eq]
    cases hsegment : Token.segment d 0 source.toList with
    | finished tokens =>
      rw [hsegment] at hends
      obtain ⟨hend, rfl⟩ := hends
      exact .inl ⟨hend, rfl⟩
    | failed e =>
      rw [hsegment] at hends
      exact .inr ⟨e, hends, rfl⟩
    | switched target offset rest =>
      obtain ⟨pre, word, hmeets, -, -⟩ := (Token.segment_switched_iff hsize).1 hsegment
      exact absurd hmeets (hnone pre word rest)
  · have hsegment := (Token.segment_switched_iff hsize).2 ⟨pre, word, hmeets, rfl, rfl⟩
    have hlength : (String.ofList post).utf8ByteSize + byteLength (pre ++ word) ≤ Span.limit := by
      rw [← byteLength_toList, hmeets.split, byteLength_append] at hsize
      rw [utf8ByteSize_ofList]
      omega
    have hmove := Token.scanFrom_move (d := d.target) hlength (List.nil_append _) rfl
    rw [byteLength_nil, Nat.zero_add, String.toList_ofList] at hmove
    simp only [tokenize, String.toList_ofList]
    rw [Token.scanFrom_eq, hsegment]
    exact hmove

/-- Neither a string nor the other dialect's switch word counts, and the letters may be of either
case. -/
theorem tokenize_switch_prose :
    ∃ pre word, Dialect.standard.Meets "standard \"prose\" PROSE set" pre word " set".toList ∧
      tokenize .standard "standard \"prose\" PROSE set" = moveScan 22 (tokenize .prose " set") := by
  have hsegment : Token.segment .standard 0 "standard \"prose\" PROSE set".toList =
      .switched .prose 22 " set".toList := by
    cbv
  obtain ⟨pre, word, hmeets, -, hoffset⟩ := (Token.segment_switched_iff (by decide)).1 hsegment
  have hscan := (((tokenize_switch _ _).1 (by decide)).2 pre word _ hmeets).2
  rw [String.ofList_toList, ← hoffset] at hscan
  exact ⟨pre, word, hmeets, hscan⟩

end DialectScript
