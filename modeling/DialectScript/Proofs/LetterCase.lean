import Mathlib
import DialectScript.Proofs.Restarts

/-!
# The case of letters

**Theorem (`tokenize_ignores_case`).** Two sources that differ only in the case of ASCII letters are
scanned alike: they have tokens of the same kinds at the same places, with texts that differ only in
the case of letters, or both have the same error.

The scan of a source in lower case is the scan of the source with the texts in lower case
(`Token.scanFrom_lower`), and sources that differ in case only are one source in lower case. What a
character is to the scanner does not depend on its case: no letter is white space, a digit, a quote
or part of a symbol (`Lexeme.congr_toLower`).
-/

namespace DialectScript

open Lexeme
open Text (byteLength)

/-! ## Lower case -/

/-- The characters, with small letters for capital ones. -/
def Text.lowered (cs : List Char) : List Char := cs.map Char.toLower

/-- The texts differ only in the case of ASCII letters. -/
def Text.SameButCase (s s' : String) : Prop := Text.lowered s.toList = Text.lowered s'.toList

instance (s s' : String) : Decidable (Text.SameButCase s s') := inferInstanceAs (Decidable (_ = _))

/-- The tokens are of one kind and at one place, and their texts differ only in case. -/
structure Token.SameButCase (t t' : Token) : Prop where
  kind : t'.kind = t.kind
  span : t'.span = t.span
  text : Text.SameButCase t.text t'.text

open Text (lowered)

/-- The lexeme in lower case. -/
def Lexeme.lower (l : Lexeme) : Lexeme := ⟨l.shape, Text.lowered l.chars, Text.lowered l.rest⟩

/-- The token with its text in lower case. -/
def Token.lower (t : Token) : Token := { t with text := .ofList (Text.lowered t.text.toList) }

/-- What a segment ends with, in lower case. -/
def Token.Segment.lower : Token.Segment → Token.Segment
  | .finished tokens => .finished (tokens.map Token.lower)
  | .failed e => .failed e
  | .switched target offset rest => .switched target offset (Text.lowered rest)

/-- What a scan ends with, in lower case. -/
def LexicalError.lowerScan :
    Except LexicalError (List Token) → Except LexicalError (List Token)
  | .ok tokens => .ok (tokens.map Token.lower)
  | .error e => .error e

/-! ## Characters -/

namespace Lexeme

variable {α : Type} {c : Char}

/-- What all letters have in common does not depend on their case. -/
theorem congr_toLower {p : Char → α} {a : α} (h : ∀ c : Char, c.isAlpha = true → p c = a)
    (c : Char) : p c.toLower = p c := by
  by_cases hc : c.isUpper
  · have halpha : c.isAlpha = true := by rw [Char.isAlpha, hc, Bool.true_or]
    rw [h c halpha, h c.toLower ((Char.isAlpha_toLower_eq_isAlpha c).trans halpha)]
  · rw [Char.toLower_eq_of_not_isUpper hc]

theorem isBlank_toLower (c : Char) : isBlank c.toLower = isBlank c := by
  refine congr_toLower (a := false) (fun c halpha => ?_) c
  refine Bool.eq_false_iff.2 fun hblank => ?_
  rw [(classes_of_isBlank hblank).1] at halpha
  cases halpha

theorem isDigit_toLower (c : Char) : c.toLower.isDigit = c.isDigit :=
  congr_toLower (fun _ => isDigit_of_isAlpha) c

theorem eq_quote_toLower (c : Char) : (c.toLower == '"') = (c == '"') := by
  refine congr_toLower (p := (· == '"')) (a := false) (fun c halpha => ?_) c
  refine beq_eq_false_iff_ne.2 ?_
  rintro rfl
  exact absurd halpha (by decide)

theorem singleSymbol?_of_isAlpha (h : c.isAlpha = true) : singleSymbol? c = none := by
  unfold singleSymbol?
  split <;> first | rfl | exact absurd h (by decide)

theorem pairSymbol?_of_isAlpha_left (h : c.isAlpha = true) (d : Char) : pairSymbol? c d = none := by
  unfold pairSymbol?
  split <;> first | rfl | exact absurd h (by decide)

theorem pairSymbol?_of_isAlpha_right (c : Char) {d : Char} (h : d.isAlpha = true) :
    pairSymbol? c d = none := by
  unfold pairSymbol?
  split <;> first | rfl | exact absurd h (by decide)

theorem singleSymbol?_toLower (c : Char) : singleSymbol? c.toLower = singleSymbol? c :=
  congr_toLower (fun _ => singleSymbol?_of_isAlpha) c

theorem pairSymbol?_toLower (c d : Char) :
    pairSymbol? c.toLower d.toLower = pairSymbol? c d := by
  rw [congr_toLower (p := fun c => pairSymbol? c d.toLower)
      (fun c h => pairSymbol?_of_isAlpha_left h d.toLower) c,
    congr_toLower (fun d => pairSymbol?_of_isAlpha_right c) d]

theorem utf8Size_toLower (c : Char) : c.toLower.utf8Size = c.utf8Size := by
  refine congr_toLower (p := Char.utf8Size) (a := 1) (fun c halpha => ?_) c
  have hle : c.val ≤ 127 := by
    simp only [Char.isAlpha, Char.isUpper, Char.isLower, Bool.or_eq_true, Bool.and_eq_true,
      decide_eq_true_eq] at halpha
    grind
  simp [Char.utf8Size, hle]

end Lexeme

theorem Text.byteLength_lowered (cs : List Char) : byteLength (lowered cs) = byteLength cs := by
  induction cs with
  | nil => rfl
  | cons c cs ih =>
    rw [lowered, List.map_cons, byteLength_cons, byteLength_cons, utf8Size_toLower, ← lowered, ih]

theorem Text.lowered_lowered (cs : List Char) : lowered (lowered cs) = lowered cs := by
  simp [lowered, Function.comp_def]

/-! ## Lexemes -/

namespace Lexeme

variable {cs : List Char}

theorem run_lower (shape : Shape) {p : Char → Bool} (hp : ∀ c, p c.toLower = p c)
    (cs : List Char) : run shape p (Text.lowered cs) = (run shape p cs).lower := by
  have hcomp : p ∘ Char.toLower = p := funext hp
  simp only [run, lower, Text.lowered, List.takeWhile_map, List.dropWhile_map, hcomp]

theorem quoted_lower (cs : List Char) : quoted (Text.lowered cs) = (quoted cs).lower := by
  have hcomp : (· != '"') ∘ Char.toLower = (· != '"') :=
    funext fun c => congrArg Bool.not (eq_quote_toLower c)
  unfold quoted
  rw [Text.lowered, List.dropWhile_map, List.takeWhile_map, hcomp]
  cases hdrop : cs.dropWhile (· != '"') with
  | nil => rfl
  | cons q rest => simp [lower, Text.lowered]

theorem symbol?_lower (cs : List Char) : symbol? (Text.lowered cs) = (symbol? cs).map lower := by
  match cs with
  | [] => rfl
  | [c] =>
    simp only [Text.lowered, List.map_cons, List.map_nil, symbol?, singleSymbol?_toLower,
      Option.map_map]
    rfl
  | c :: d :: cs =>
    simp only [Text.lowered, List.map_cons, symbol?, singleSymbol?_toLower, pairSymbol?_toLower]
    cases pairSymbol? c d with
    | some kind => rfl
    | none => rw [Option.map_map]; rfl

theorem first?_lower (cs : List Char) : first? (Text.lowered cs) = (first? cs).map lower := by
  cases cs with
  | nil => rfl
  | cons c cs =>
    have hblank := run_lower .blank isBlank_toLower (c :: cs)
    have hword := run_lower .word Char.isAlpha_toLower_eq_isAlpha (c :: cs)
    have hnumber := run_lower .number isDigit_toLower (c :: cs)
    have hsymbol := symbol?_lower (c :: cs)
    have hquoted := quoted_lower cs
    rw [Text.lowered, List.map_cons, ← Text.lowered] at hblank hword hnumber hsymbol ⊢
    simp only [first?, isBlank_toLower, Char.isAlpha_toLower_eq_isAlpha, isDigit_toLower,
      eq_quote_toLower, hblank, hword, hnumber, hquoted, hsymbol]
    repeat' split
    all_goals rfl

end Lexeme

namespace Dialect

variable (d : Dialect) (letters : List Char)

theorem classify_lower : d.classify (lowered letters) = d.classify letters := by
  have hspells (word : String) : Word.spells (lowered letters) word = Word.spells letters word := by
    rw [Word.spells, Word.spells, ← lowered, ← lowered, Text.lowered_lowered]
  simp only [classify, hspells]

theorem kind?_lower (shape : Shape) : d.kind? shape (lowered letters) = d.kind? shape letters := by
  cases shape with
  | word => rw [kind?, kind?, classify_lower]
  | _ => rfl

end Dialect

theorem Shape.text_lower (shape : Shape) (chars : List Char) :
    shape.text (lowered chars) = .ofList (lowered (shape.text chars).toList) := by
  cases shape <;> simp [Shape.text, lowered, List.map_tail, List.map_dropLast]

/-! ## Scans -/

namespace Token

variable {d : Dialect} {offset : Nat} {cs : List Char} {l : Lexeme} {kind : Kind}

theorem Segment.cons_lower (t : Token) (s : Segment) : (s.cons t).lower = s.lower.cons t.lower := by
  cases s <;> rfl

theorem first?_lower_of_eq_some (hl : first? cs = some l) : first? (lowered cs) = some l.lower := by
  rw [first?_lower, hl, Option.map_some]

/-- The token of a lexeme is put into lower case with what is behind it. -/
theorem segment_token_lower {shape : Shape} (hl : first? cs = some l) (hshape : l.shape = shape)
    (hkind : d.kind? shape l.chars = some kind)
    (ih : segment d (offset + byteLength l.chars) (lowered l.rest) =
      (segment d (offset + byteLength l.chars) l.rest).lower) :
    segment d offset (lowered cs) =
      Segment.lower ((segment d (offset + byteLength l.chars) l.rest).cons
        ⟨kind, shape.text l.chars, .ofRange offset (offset + byteLength l.chars)⟩) := by
  subst hshape
  have hkind' : d.kind? l.lower.shape l.lower.chars = some kind :=
    (d.kind?_lower l.chars l.shape).trans hkind
  rw [segment_token (first?_lower_of_eq_some hl) hkind', Segment.cons_lower, ← ih]
  simp only [Lexeme.lower, Text.byteLength_lowered, Shape.text_lower, Token.lower]

/-- A segment in lower case ends with the same in lower case. -/
theorem segment_lower (d : Dialect) (offset : Nat) (cs : List Char) :
    segment d offset (lowered cs) = (segment d offset cs).lower := by
  fun_induction segment d offset cs with
  | case1 offset => exact segment_end
  | case2 offset c cs _ hnone =>
    have hnone' : first? (c.toLower :: lowered cs) = none := by
      have := first?_lower (c :: cs)
      rwa [hnone] at this
    -- A character that starts no lexeme is no letter.
    have hc : c.toLower = c := by
      refine Char.toLower_eq_of_not_isUpper fun hupper => ?_
      have halpha : c.isAlpha = true := by rw [Char.isAlpha, hupper, Bool.true_or]
      exact first?_eq_none_iff.1 hnone .word [c]
        (.word (List.cons_ne_nil _ _) (by simpa using halpha)) (List.prefix_append [c] cs)
    rw [lowered, List.map_cons, ← lowered, segment_unexpected hnone', hc]
    rfl
  | case3 offset cs l hl stop hshape ih =>
    rw [segment_blank (first?_lower_of_eq_some hl) hshape]
    simpa only [Lexeme.lower, Text.byteLength_lowered] using ih
  | case4 offset cs l hl stop span hshape =>
    rw [segment_unterminated (first?_lower_of_eq_some hl) hshape]
    simp only [Lexeme.lower, Text.byteLength_lowered]
    rfl
  | case5 offset cs l hl stop span hshape ih | case6 offset cs l hl stop span hshape ih
  | case7 offset cs l hl stop span kind hshape ih =>
    exact segment_token_lower hl hshape rfl ih
  | case8 offset cs l hl stop hshape target hswitch =>
    rw [segment_switch (first?_lower_of_eq_some hl) hshape
      ((d.classify_lower l.chars).trans hswitch)]
    simp only [Lexeme.lower, Text.byteLength_lowered]
    rfl
  | case9 offset cs l hl stop span hshape kind hkeyword ih =>
    exact segment_token_lower hl hshape (by simp [Dialect.kind?, hkeyword]) ih
  | case10 offset cs l hl stop span hshape hidentifier ih =>
    exact segment_token_lower hl hshape (by simp [Dialect.kind?, hidentifier]) ih

open LexicalError (lowerScan)

/-- A text in lower case is scanned as the text is, in lower case. The induction is on the
restarts. -/
theorem scanFrom_lower (d : Dialect) (offset : Nat) (cs : List Char) :
    scanFrom d offset (lowered cs) = lowerScan (scanFrom d offset cs) := by
  fun_induction scanFrom d offset cs with
  | case1 d offset cs tokens hfinished =>
    rw [scanFrom_eq, segment_lower, hfinished]
    rfl
  | case2 d offset cs e hfailed =>
    rw [scanFrom_eq, segment_lower, hfailed]
    rfl
  | case3 d offset cs target offset' rest hswitched ih =>
    rw [scanFrom_eq, segment_lower, hswitched]
    exact ih

theorem sameButCase_of_lower_eq {t t' : Token} (h : t.lower = t'.lower) : t.SameButCase t' := by
  obtain ⟨kind, text, span⟩ := t
  obtain ⟨kind', text', span'⟩ := t'
  simp only [Token.lower, mk.injEq, String.ofList_inj] at h
  obtain ⟨rfl, htext, rfl⟩ := h
  exact ⟨rfl, rfl, htext⟩

theorem forall₂_sameButCase {tokens tokens' : List Token}
    (h : tokens.map Token.lower = tokens'.map Token.lower) :
    List.Forall₂ SameButCase tokens tokens' := by
  rw [← List.forall₂_eq_eq_eq, List.forall₂_map_left_iff, List.forall₂_map_right_iff] at h
  exact h.imp fun _ _ => sameButCase_of_lower_eq

end Token

/-- Sources that differ only in the case of letters have tokens that differ only in the case of
their texts, or the same error. -/
theorem tokenize_ignores_case (d : Dialect) {s s' : String} (h : Text.SameButCase s s') :
    (∃ tokens tokens', tokenize d s = .ok tokens ∧ tokenize d s' = .ok tokens' ∧
        List.Forall₂ Token.SameButCase tokens tokens') ∨
      ∃ e, tokenize d s = .error e ∧ tokenize d s' = .error e := by
  have hscan : LexicalError.lowerScan (tokenize d s) = LexicalError.lowerScan (tokenize d s') := by
    rw [tokenize, tokenize, ← Token.scanFrom_lower, ← Token.scanFrom_lower, h]
  cases hs : tokenize d s with
  | ok tokens =>
    cases hs' : tokenize d s' with
    | ok tokens' =>
      rw [hs, hs'] at hscan
      exact .inl ⟨tokens, tokens', rfl, rfl, Token.forall₂_sameButCase (Except.ok.inj hscan)⟩
    | error e =>
      rw [hs, hs'] at hscan
      cases hscan
  | error e =>
    cases hs' : tokenize d s' with
    | ok tokens' =>
      rw [hs, hs'] at hscan
      cases hscan
    | error e' =>
      rw [hs, hs'] at hscan
      cases hscan
      exact .inr ⟨e, rfl, rfl⟩

/-- The switch word is met in either case, and a string keeps the case of its letters. -/
theorem tokenize_ignores_case_switch :
    Text.SameButCase "x PROSE Set \"aB\"" "X prose SET \"Ab\"" ∧
      ∃ tokens', tokenize .standard "X prose SET \"Ab\"" = .ok tokens' ∧
        List.Forall₂ Token.SameButCase
          [⟨.letKeyword, "Set", ⟨8, 11⟩⟩, ⟨.string, "aB", ⟨12, 16⟩⟩, .endOfInput 16] tokens' := by
  have hsame : Text.SameButCase "x PROSE Set \"aB\"" "X prose SET \"Ab\"" := by decide
  have hscan : tokenize .standard "x PROSE Set \"aB\"" =
      .ok [⟨.letKeyword, "Set", ⟨8, 11⟩⟩, ⟨.string, "aB", ⟨12, 16⟩⟩, .endOfInput 16] := by
    decide +kernel
  obtain ⟨tokens, tokens', hok, hok', htokens⟩ | ⟨e, herror, -⟩ :=
    tokenize_ignores_case .standard hsame
  · cases hscan.symm.trans hok
    exact ⟨hsame, tokens', hok', htokens⟩
  · cases hscan.symm.trans herror

end DialectScript
