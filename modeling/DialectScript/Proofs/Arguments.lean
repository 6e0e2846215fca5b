import DialectScript.Options
import DialectScript.Proofs.LetterCase
import Mathlib.Data.Nat.Digits.Defs

/-!
# Arguments

**Theorem (`Options.read_anywhere`).** It does not matter where options stand among the arguments,
and the last one of a kind counts.

* *Which lists are read.* Those in which every argument with two dashes in front names a dialect or
  writes a depth.
* *What is read.* The other arguments in their order, and what the last option of each kind gives,
  or the standard setting if there is none (`Options.Decides`). Another order is read alike if the
  positional arguments keep theirs, and the options of each kind (`Options.Moved`).
* *Which problem is reported.* That of the first argument that means nothing.

If all the options keep their order, the positional arguments may stand anywhere between them, also
in a list that is not read.

What an argument means, and what is wrong with it, is given as it is written (`Argument.Means`,
`Problem.Concerns`). Every argument has one or the other, and reading finds it, so each fact about
lists is an induction with one case for arguments that mean something and one for those that do not.
-/

namespace DialectScript

/-! ## Parts of an argument -/

/-- The text begins with another one. -/
def Text.Begins (start s : String) : Prop := start.toList <+: s.toList

instance (start s : String) : Decidable (Text.Begins start s) :=
  inferInstanceAs (Decidable (_ <+: _))

/-- The number that decimal digits write. -/
def Numeral.decimal (digits : List Char) : Nat :=
  Nat.ofDigits 10 (digits.reverse.map fun c => c.toNat - '0'.toNat)

theorem Numeral.ofDigits_zero (digits : List Char) : ofDigits 0 digits = decimal digits := by
  rw [ofDigits, decimal, Nat.ofDigits_eq_foldr, List.foldr_map, List.foldr_reverse]
  congr 1
  funext n c
  exact Nat.add_comm _ _

/-- A dialect has its name in any case, and no other dialect has. -/
theorem Dialect.ofName?_eq_some_iff {s : String} {d : Dialect} :
    ofName? s = some d ↔ Text.SameButCase s d.name := by
  have hlower (d : Dialect) : Text.lowered d.name.toList = d.name.toList := by cases d <;> decide
  have hspells (d : Dialect) : Word.spells s.toList d.name = true ↔ Text.SameButCase s d.name := by
    rw [Word.spells, beq_iff_eq, Text.SameButCase, hlower, Text.lowered]
  have hne : Text.SameButCase s standard.name → ¬ Text.SameButCase s prose.name :=
    fun h h' => absurd (h.symm.trans h') (by decide)
  rw [← hspells, ← hspells] at hne
  rw [← hspells, ofName?, all, List.find?_cons, List.find?_cons, List.find?_nil]
  cases hstandard : Word.spells s.toList standard.name with
  | true =>
    have hprose := hne hstandard
    cases d <;> simp [hstandard, hprose]
  | false =>
    cases hprose : Word.spells s.toList prose.name <;> cases d <;> simp [hstandard, hprose]

namespace Options

open Text (Begins)

theorem after?_eq_some_iff {start s : String} {rest : List Char} :
    after? start s.toList = some rest ↔ s = start ++ .ofList rest := by
  rw [after?, Option.ite_none_right_eq_some, List.isPrefixOf_iff_prefix, ← String.toList_inj,
    String.toList_append, String.toList_ofList]
  constructor
  · rintro ⟨⟨tail, htail⟩, hdrop⟩
    rw [← htail, List.drop_left, Option.some.injEq] at hdrop
    rw [← htail, hdrop]
  · intro h
    rw [h, List.drop_left]
    exact ⟨List.prefix_append _ _, rfl⟩

theorem after?_eq_none_iff {start s : String} :
    after? start s.toList = none ↔ ¬ Begins start s := by
  rw [after?, ite_eq_right_iff]
  simp [Begins]

theorem begins_iff {start s : String} : Begins start s ↔ ∃ rest, s = start ++ rest := by
  constructor
  · rintro ⟨rest, hrest⟩
    refine ⟨.ofList rest, ?_⟩
    rw [← String.toList_inj, String.toList_append, String.toList_ofList, hrest]
  · rintro ⟨rest, rfl⟩
    rw [Begins, String.toList_append]
    exact List.prefix_append _ _

theorem begins_append (start s : String) : Begins start (start ++ s) := by
  rw [begins_iff]
  exact ⟨s, rfl⟩

/-- The text writes a depth: an optional plus sign, and decimal digits for a number other than zero
that fits into 64 bits. -/
def WritesDepth (text : String) (n : Nat) : Prop :=
  ∃ sign digits : List Char, text.toList = sign ++ digits ∧ (sign = [] ∨ sign = ['+']) ∧
    (∀ c ∈ digits, c.isDigit) ∧ n = Numeral.decimal digits ∧ 0 < n ∧ n ≤ 2 ^ 64 - 1

theorem depth?_eq_some_iff {text : String} {n : Nat} :
    depth? text.toList = some n ↔ WritesDepth text n := by
  -- What remains is the same with a sign and without one: the digits and the number they write.
  have hnumber (digits : List Char) :
      (if digits.all Char.isDigit && 0 < Numeral.ofDigits 0 digits &&
        Numeral.ofDigits 0 digits ≤ depthLimit then some (Numeral.ofDigits 0 digits) else none) =
          some n ↔
      (∀ c ∈ digits, c.isDigit) ∧ n = Numeral.decimal digits ∧ 0 < n ∧ n ≤ 2 ^ 64 - 1 := by
    simp only [Numeral.ofDigits_zero, Option.ite_none_right_eq_some, Bool.and_eq_true,
      List.all_eq_true, decide_eq_true_eq, Option.some.injEq]
    constructor
    · rintro ⟨⟨⟨hdigits, hpos⟩, hle⟩, rfl⟩
      exact ⟨hdigits, rfl, hpos, hle⟩
    · rintro ⟨hdigits, rfl, hpos, hle⟩
      exact ⟨⟨⟨hdigits, hpos⟩, hle⟩, rfl⟩
  rw [WritesDepth]
  generalize text.toList = cs
  -- Only one plus sign is dropped, so digits can be read in one way.
  by_cases hplus : ∃ rest, cs = '+' :: rest
  · obtain ⟨rest, rfl⟩ := hplus
    rw [depth?, hnumber]
    constructor
    · rintro h
      exact ⟨['+'], rest, rfl, .inr rfl, h⟩
    · rintro ⟨sign, digits, hcs, rfl | rfl, h⟩
      · rw [List.nil_append] at hcs
        exact absurd (h.1 '+' (hcs ▸ List.mem_cons_self)) (by decide)
      · cases hcs
        exact h
  · rw [depth?, hnumber]
    · constructor
      · rintro h
        exact ⟨[], cs, rfl, .inl rfl, h⟩
      · rintro ⟨sign, digits, rfl, rfl | rfl, h⟩
        · exact h
        · exact absurd ⟨digits, rfl⟩ hplus
    · exact fun rest h => hplus ⟨rest, h⟩

/-! ## One argument -/

/-- What an argument means, given as it is written. -/
inductive Argument.Means : Argument → String → Prop
  | dialect {d : Dialect} {name : String} :
      Text.SameButCase name d.name → Means (.dialect d) ("--dialect=" ++ name)
  | maxDepth {n : Nat} {text : String} :
      WritesDepth text n → Means (.maxDepth n) ("--max-depth=" ++ text)
  | positional {s : String} : ¬ Begins "--" s → Means (.positional s) s

/-- The argument means something. -/
def Understood (s : String) : Prop := ∃ a : Argument, a.Means s

/-- The problem of an argument that means nothing. -/
inductive Problem.Concerns : Problem → String → Prop
  | unknownDialect {name : String} :
      (∀ d : Dialect, ¬ Text.SameButCase name d.name) →
      Concerns (.unknownDialect name) ("--dialect=" ++ name)
  | badDepth {text : String} :
      (∀ n, ¬ WritesDepth text n) → Concerns (.badDepth text) ("--max-depth=" ++ text)
  | unknownOption {s : String} :
      Begins "--" s → ¬ Begins "--dialect=" s → ¬ Begins "--max-depth=" s →
      Concerns (.unknownOption s) s

variable {s : String} {a : Argument} {p : Problem}

theorem after?_append (start text : String) :
    after? start (start ++ text).toList = some text.toList := by
  rw [after?_eq_some_iff, String.ofList_toList]

/-- No argument sets both the dialect and the depth. -/
theorem not_begins_maxDepth (hdialect : Begins "--dialect=" s) : ¬ Begins "--max-depth=" s := by
  intro hdepth
  have hboth := List.prefix_or_prefix_of_prefix hdialect hdepth
  revert hboth
  decide

theorem after?_dialect_maxDepth (text : String) :
    after? "--dialect=" ("--max-depth=" ++ text).toList = none := by
  rw [after?_eq_none_iff]
  exact fun h => not_begins_maxDepth h (begins_append _ _)

theorem begins_dashes_of_dialect (h : Begins "--dialect=" s) : Begins "--" s :=
  List.IsPrefix.trans (by decide) h

theorem begins_dashes_of_maxDepth (h : Begins "--max-depth=" s) : Begins "--" s :=
  List.IsPrefix.trans (by decide) h

theorem Argument.ofString_other (hdialect : ¬ Begins "--dialect=" s)
    (hdepth : ¬ Begins "--max-depth=" s) :
    Argument.ofString s =
      if Begins "--" s then .error (.unknownOption s) else .ok (.positional s) := by
  have hdashes : (after? "--" s.toList).isSome = true ↔ Begins "--" s := by
    rw [Option.isSome_iff_ne_none, Ne, after?_eq_none_iff, not_not]
  rw [← after?_eq_none_iff] at hdialect hdepth
  simp only [Argument.ofString, hdialect, hdepth, hdashes]

/-- An argument that means something is taken for that. -/
theorem Argument.Means.ofString (h : a.Means s) : Argument.ofString s = .ok a := by
  cases h with
  | dialect hname =>
    rw [← Dialect.ofName?_eq_some_iff] at hname
    simp only [Argument.ofString, after?_append, String.ofList_toList, hname]
  | maxDepth hdepth =>
    rw [← depth?_eq_some_iff] at hdepth
    simp only [Argument.ofString, after?_dialect_maxDepth, after?_append, hdepth]
  | positional hdashes =>
    rw [Argument.ofString_other (fun h => hdashes (begins_dashes_of_dialect h))
      (fun h => hdashes (begins_dashes_of_maxDepth h)), if_neg hdashes]

/-- An argument with a problem is refused for that. -/
theorem Problem.Concerns.ofString (h : p.Concerns s) : Argument.ofString s = .error p := by
  cases h with
  | @unknownDialect name hname =>
    have hnone : Dialect.ofName? name = none := by
      simp only [Option.eq_none_iff_forall_ne_some, Ne, Dialect.ofName?_eq_some_iff, hname,
        not_false_eq_true, implies_true]
    simp only [Argument.ofString, after?_append, String.ofList_toList, hnone]
  | @badDepth text hdepth =>
    have hnone : depth? text.toList = none := by
      simp only [Option.eq_none_iff_forall_ne_some, Ne, depth?_eq_some_iff, hdepth,
        not_false_eq_true, implies_true]
    simp only [Argument.ofString, after?_dialect_maxDepth, after?_append, String.ofList_toList,
      hnone]
  | unknownOption hdashes hdialect hdepth =>
    rw [Argument.ofString_other hdialect hdepth, if_pos hdashes]

/-- Every argument means something or has a problem. -/
theorem means_or_concerns (s : String) : Understood s ∨ ∃ p : Problem, p.Concerns s := by
  by_cases hdialect : Begins "--dialect=" s
  · obtain ⟨name, rfl⟩ := begins_iff.1 hdialect
    by_cases hname : ∃ d : Dialect, Text.SameButCase name d.name
    · exact .inl ⟨_, .dialect hname.choose_spec⟩
    · exact .inr ⟨_, .unknownDialect (not_exists.1 hname)⟩
  · by_cases hdepth : Begins "--max-depth=" s
    · obtain ⟨text, rfl⟩ := begins_iff.1 hdepth
      by_cases hn : ∃ n, WritesDepth text n
      · exact .inl ⟨_, .maxDepth hn.choose_spec⟩
      · exact .inr ⟨_, .badDepth (not_exists.1 hn)⟩
    · by_cases hdashes : Begins "--" s
      · exact .inr ⟨_, .unknownOption hdashes hdialect hdepth⟩
      · exact .inl ⟨_, .positional hdashes⟩

theorem ofString_eq_error_iff : Argument.ofString s = .error p ↔ p.Concerns s := by
  refine ⟨fun h => ?_, Problem.Concerns.ofString⟩
  rcases means_or_concerns s with ⟨a, ha⟩ | ⟨p', hp'⟩
  · cases h.symm.trans ha.ofString
  · cases h.symm.trans hp'.ofString
    exact hp'

/-! ## Arguments in a list -/

/-- The settings with what an argument sets. -/
def set (options : Options) : Argument → Options
  | .dialect d => { options with dialect := d }
  | .maxDepth n => { options with maxDepth := n }
  | .positional _ => options

/-- The texts that an argument adds to the positional ones. -/
def Argument.texts : Argument → List String
  | .positional text => [text]
  | _ => []

/-- What the last of the arguments with a given beginning gives, or what holds if there is none. -/
def Decides {α : Type} (start : String) (gives : α → Argument) (default : α) (args : List String)
    (x : α) : Prop :=
  match (args.filter (Begins start ·)).getLast? with
  | some last => (gives x).Means last
  | none => x = default

/-- The second list has the arguments of the first in another order. The positional arguments keep
their order among them, and so do the options of one kind. -/
structure Moved (args args' : List String) : Prop where
  perm : args.Perm args'
  positional : args'.filter (¬ Begins "--" ·) = args.filter (¬ Begins "--" ·)
  dialect : args'.filter (Begins "--dialect=" ·) = args.filter (Begins "--dialect=" ·)
  maxDepth : args'.filter (Begins "--max-depth=" ·) = args.filter (Begins "--max-depth=" ·)

variable {options : Options} {args args' rest : List String} {α : Type} {start : String}
variable {gives : α → Argument} {default x y : α}

theorem readFrom_cons_of_means (h : a.Means s) :
    readFrom options (s :: rest) =
      (readFrom (options.set a) rest).map fun r => (r.1, a.texts ++ r.2) := by
  rw [readFrom, h.ofString]
  cases a with
  | dialect d =>
    show readFrom { options with dialect := d } rest =
      (readFrom { options with dialect := d } rest).map _
    cases readFrom { options with dialect := d } rest <;> rfl
  | maxDepth n =>
    show readFrom { options with maxDepth := n } rest =
      (readFrom { options with maxDepth := n } rest).map _
    cases readFrom { options with maxDepth := n } rest <;> rfl
  | positional text =>
    rw [set]
    cases readFrom options rest <;> rfl

theorem readFrom_cons_of_concerns (h : p.Concerns s) :
    readFrom options (s :: rest) = .error p := by
  rw [readFrom, h.ofString]

/-- The first argument that means nothing is the one that is reported. -/
theorem readFrom_of_concerns {before : List String} (hbefore : ∀ s ∈ before, Understood s)
    (h : p.Concerns s) : readFrom options (before ++ s :: rest) = .error p := by
  induction before generalizing options with
  | nil => exact readFrom_cons_of_concerns h
  | cons first before ih =>
    rw [List.forall_mem_cons] at hbefore
    obtain ⟨⟨a, ha⟩, hbefore⟩ := hbefore
    rw [List.cons_append, readFrom_cons_of_means ha, ih hbefore]
    rfl

/-- If not all arguments mean something, one is the first that does not. -/
theorem exists_first_concerns (args : List String) :
    (∀ s ∈ args, Understood s) ∨
      ∃ before s after, ∃ p : Problem, args = before ++ s :: after ∧
        (∀ s ∈ before, Understood s) ∧ p.Concerns s := by
  induction args with
  | nil => exact .inl nofun
  | cons s rest ih =>
    rcases means_or_concerns s with hs | ⟨p, hp⟩
    · rcases ih with hrest | ⟨before, s', after, p, rfl, hbefore, hp⟩
      · exact .inl (List.forall_mem_cons.2 ⟨hs, hrest⟩)
      · exact .inr ⟨s :: before, s', after, p, rfl, List.forall_mem_cons.2 ⟨hs, hbefore⟩, hp⟩
    · exact .inr ⟨[], s, rest, p, rfl, nofun, hp⟩

theorem decides_cons_of_not (h : ¬ Begins start s) :
    Decides start gives default (s :: rest) x ↔ Decides start gives default rest x := by
  rw [Decides, Decides, List.filter_cons_of_neg (by simpa using h)]

theorem Decides.cons (h : Begins start s) (hy : (gives y).Means s)
    (hrest : Decides start gives y rest x) : Decides start gives default (s :: rest) x := by
  rw [Decides] at hrest
  rw [Decides, List.filter_cons_of_pos (by simpa using h), List.getLast?_cons]
  cases hlast : (rest.filter (Begins start ·)).getLast? with
  | some last =>
    rw [hlast] at hrest
    exact hrest
  | none =>
    rw [hlast] at hrest
    subst hrest
    exact hy

/-- Arguments that all mean something are read. -/
theorem readFrom_of_means (options : Options) (h : ∀ s ∈ args, Understood s) :
    ∃ options', readFrom options args = .ok (options', args.filter (¬ Begins "--" ·)) ∧
      Decides "--dialect=" .dialect options.dialect args options'.dialect ∧
      Decides "--max-depth=" .maxDepth options.maxDepth args options'.maxDepth := by
  -- For all options at once: what an argument sets is what the arguments behind it start from.
  induction args generalizing options with
  | nil => exact ⟨options, rfl, rfl, rfl⟩
  | cons s rest ih =>
    rw [List.forall_mem_cons] at h
    obtain ⟨⟨a, ha⟩, hrest⟩ := h
    obtain ⟨options', hread, hdialect, hdepth⟩ := ih (options.set a) hrest
    rw [readFrom_cons_of_means ha, hread]
    refine ⟨options', ?_⟩
    cases ha with
    | @dialect d name hname =>
      have hbegins := begins_append "--dialect=" name
      have hdashes := begins_dashes_of_dialect hbegins
      refine ⟨?_, hdialect.cons hbegins (.dialect hname), ?_⟩
      · rw [List.filter_cons_of_neg (by simpa using hdashes)]
        rfl
      · rw [decides_cons_of_not (not_begins_maxDepth hbegins)]
        exact hdepth
    | @maxDepth n text hn =>
      have hbegins := begins_append "--max-depth=" text
      have hdashes := begins_dashes_of_maxDepth hbegins
      refine ⟨?_, ?_, hdepth.cons hbegins (.maxDepth hn)⟩
      · rw [List.filter_cons_of_neg (by simpa using hdashes)]
        rfl
      · rw [decides_cons_of_not fun h => not_begins_maxDepth h hbegins]
        exact hdialect
    | positional hdashes =>
      refine ⟨?_, ?_, ?_⟩
      · rw [List.filter_cons_of_pos (by simpa using hdashes)]
        rfl
      · rw [decides_cons_of_not fun h => hdashes (begins_dashes_of_dialect h)]
        exact hdialect
      · rw [decides_cons_of_not fun h => hdashes (begins_dashes_of_maxDepth h)]
        exact hdepth

/-! ## Moved -/

theorem Decides.unique (hgives : Function.Injective gives)
    (hx : Decides start gives default args x) (hy : Decides start gives default args y) :
    x = y := by
  rw [Decides] at hx hy
  cases hlast : (args.filter (Begins start ·)).getLast? with
  | some last =>
    rw [hlast] at hx hy
    exact hgives (Except.ok.inj (hx.ofString.symm.trans hy.ofString))
  | none =>
    rw [hlast] at hx hy
    exact hx.trans hy.symm

theorem Decides.congr (h : args'.filter (Begins start ·) = args.filter (Begins start ·)) :
    Decides start gives default args' x ↔ Decides start gives default args x := by
  rw [Decides, Decides, h]

/-- The last option of a kind is the last one in another order too. -/
theorem readFrom_moved (hmoved : Moved args args') {r : Options × List String}
    (hmeans : ∀ s ∈ args, Understood s) (h : readFrom options args = .ok r) :
    readFrom options args' = .ok r := by
  have hmeans' : ∀ s ∈ args', Understood s :=
    fun s hs => hmeans s (hmoved.perm.mem_iff.2 hs)
  obtain ⟨o, hread, hdialect, hdepth⟩ := readFrom_of_means options hmeans
  obtain ⟨o', hread', hdialect', hdepth'⟩ := readFrom_of_means options hmeans'
  rw [Decides.congr hmoved.dialect] at hdialect'
  rw [Decides.congr hmoved.maxDepth] at hdepth'
  have ho : o' = o := by
    obtain ⟨d, n⟩ := o
    obtain ⟨d', n'⟩ := o'
    rw [Options.mk.injEq]
    exact ⟨hdialect'.unique (fun _ _ => Argument.dialect.inj) hdialect,
      hdepth'.unique (fun _ _ => Argument.maxDepth.inj) hdepth⟩
  rw [hread', ho, hmoved.positional, ← hread, h]

/-- Options and positional arguments are read apart. -/
theorem readFrom_filter (options : Options) (args : List String) :
    readFrom options args =
      (readFrom options (args.filter (Begins "--" ·))).map fun r =>
        (r.1, args.filter (¬ Begins "--" ·)) := by
  induction args generalizing options with
  | nil => rfl
  | cons s rest ih =>
    -- Only an option can fail or change the options; every other argument is kept as it is.
    by_cases hs : Begins "--" s
    · have hpos : (s :: rest).filter (Begins "--" ·) = s :: rest.filter (Begins "--" ·) :=
        List.filter_cons_of_pos (decide_eq_true hs)
      have hneg : (s :: rest).filter (¬ Begins "--" ·) = rest.filter (¬ Begins "--" ·) :=
        List.filter_cons_of_neg (by simpa using hs)
      rw [hpos, hneg]
      rcases means_or_concerns s with ⟨a, ha⟩ | ⟨p, hp⟩
      · have htexts : a.texts = [] := by
          cases ha with
          | dialect _ | maxDepth _ => rfl
          | positional hdashes => exact absurd hs hdashes
        rw [readFrom_cons_of_means ha, readFrom_cons_of_means ha, ih, htexts]
        cases readFrom (options.set a) (rest.filter (Begins "--" ·)) <;> rfl
      · rw [readFrom_cons_of_concerns hp, readFrom_cons_of_concerns hp]
        rfl
    · have hpos : (s :: rest).filter (¬ Begins "--" ·) = s :: rest.filter (¬ Begins "--" ·) :=
        List.filter_cons_of_pos (decide_eq_true hs)
      have hneg : (s :: rest).filter (Begins "--" ·) = rest.filter (Begins "--" ·) :=
        List.filter_cons_of_neg (by simpa using hs)
      rw [hpos, hneg, readFrom_cons_of_means (.positional hs), ih, set]
      cases readFrom options (rest.filter (Begins "--" ·)) <;> rfl

/-- Only an option can mean nothing. -/
theorem understood_iff : Understood s ↔
    (Begins "--" s → (∃ d, (Argument.dialect d).Means s) ∨ ∃ n, (Argument.maxDepth n).Means s) := by
  constructor
  · rintro ⟨a, ha⟩ hdashes
    cases a with
    | dialect d => exact .inl ⟨d, ha⟩
    | maxDepth n => exact .inr ⟨n, ha⟩
    | positional text =>
      cases ha with
      | positional h => exact absurd hdashes h
  · intro h
    by_cases hdashes : Begins "--" s
    · rcases h hdashes with ⟨d, hd⟩ | ⟨n, hn⟩
      · exact ⟨_, hd⟩
      · exact ⟨_, hn⟩
    · exact ⟨_, .positional hdashes⟩

/-- Arguments are read if every option names a dialect or writes a depth. The last option of a kind
counts, wherever it stands, and the problem of the first bad one is reported. -/
theorem read_anywhere (args : List String) :
    ((∃ r, read args = .ok r) ↔ ∀ s ∈ args, Begins "--" s →
      (∃ d, (Argument.dialect d).Means s) ∨ ∃ n, (Argument.maxDepth n).Means s) ∧
    (∀ options positional, read args = .ok (options, positional) →
      positional = args.filter (¬ Begins "--" ·) ∧
      Decides "--dialect=" .dialect standard.dialect args options.dialect ∧
      Decides "--max-depth=" .maxDepth standard.maxDepth args options.maxDepth ∧
      ∀ args', Moved args args' → read args' = .ok (options, positional)) ∧
    (∀ p, read args = .error p ↔ ∃ before s after, args = before ++ s :: after ∧
      (∀ s ∈ before, Understood s) ∧ p.Concerns s) ∧
    ∀ args', args'.filter (Begins "--" ·) = args.filter (Begins "--" ·) →
      args'.filter (¬ Begins "--" ·) = args.filter (¬ Begins "--" ·) → read args' = read args := by
  -- The reading fails only if there is a first argument that is not understood.
  have hcases := exists_first_concerns args
  have hok {r} (h : read args = .ok r) : ∀ s ∈ args, Understood s := by
    rcases hcases with hall | ⟨before, s, after, p, rfl, hbefore, hp⟩
    · exact hall
    · cases h.symm.trans (readFrom_of_concerns hbefore hp)
  refine ⟨?_, fun options positional h => ?_, fun p => ⟨fun h => ?_, ?_⟩,
    fun args' hopts hpos => ?_⟩
  · simp only [← understood_iff]
    refine ⟨fun ⟨r, h⟩ => hok h, fun h => ?_⟩
    obtain ⟨options, hread, -⟩ := readFrom_of_means standard h
    exact ⟨_, hread⟩
  · obtain ⟨options', hread, hdialect, hdepth⟩ := readFrom_of_means standard (hok h)
    cases h.symm.trans hread
    exact ⟨rfl, hdialect, hdepth, fun args' hmoved => readFrom_moved hmoved (hok h) h⟩
  · rcases hcases with hall | ⟨before, s, after, p', rfl, hbefore, hp⟩
    · obtain ⟨options, hread, -⟩ := readFrom_of_means standard hall
      cases h.symm.trans hread
    · cases h.symm.trans (readFrom_of_concerns hbefore hp)
      exact ⟨before, s, after, rfl, hbefore, hp⟩
  · rintro ⟨before, s, after, rfl, hbefore, hp⟩
    exact readFrom_of_concerns hbefore hp
  · rw [read, read, readFrom_filter, readFrom_filter standard args, hopts, hpos]

/-- Two depths with the largest one last, a dialect that is moved to the front, and a depth that is
one too large in front of an option that does not exist. -/
theorem read_anywhere_moved :
    let deep := "--max-depth=18446744073709551615"
    let args := ["--max-depth=+007", "a", "--dialect=PROSE", "-x", deep]
    let args' := ["--dialect=PROSE", "a", "--max-depth=+007", deep, "-x"]
    let tooDeep := "--max-depth=18446744073709551616"
    Moved args args' ∧ read args' = .ok (⟨.prose, 18446744073709551615⟩, ["a", "-x"]) ∧
      Problem.Concerns (.badDepth "18446744073709551616") tooDeep ∧
      read ["a", tooDeep, "--fast"] = .error (.badDepth "18446744073709551616") := by
  intro deep args args' tooDeep
  have hread : read args = .ok (⟨.prose, 18446744073709551615⟩, ["a", "-x"]) := by decide +kernel
  have hmoved : Moved args args' :=
    ⟨by decide +kernel, by decide +kernel, by decide +kernel, by decide +kernel⟩
  have hdeep : Problem.Concerns (.badDepth "18446744073709551616") tooDeep := by
    rw [← ofString_eq_error_iff]
    decide +kernel
  obtain ⟨-, hok, -, -⟩ := read_anywhere args
  obtain ⟨-, -, herror, -⟩ := read_anywhere ["a", tooDeep, "--fast"]
  refine ⟨hmoved, (hok _ _ hread).2.2.2 args' hmoved, hdeep, (herror _).2 ?_⟩
  refine ⟨["a"], tooDeep, ["--fast"], rfl, ?_, hdeep⟩
  rw [List.forall_mem_singleton]
  exact ⟨_, .positional (by decide)⟩

end Options

end DialectScript
