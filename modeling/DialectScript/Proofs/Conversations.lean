import DialectScript.Proofs.Limit
import DialectScript.Report.Snippet

/-!
# Conversations

**Theorem (`Session.converse_fold`).** An interactive session is a fold over its lines, if the
evaluation of each of them ends (`Session.Ends`). How syntax errors are drawn plays no part.

* The lines before the first that is to end it are taken in one after another, without the white
  space around them, and those that are not blank are evaluated, each in the session that the ones
  before have left, whatever became of them.
* What is shown is the welcome, for every line the prompt and its answer, and the close.
* There is one scope and one dialect from the first line to the last.
* More fuel changes nothing.
* The lines are the input cut at its line feeds, with the carriage returns in front of these left
  out.

One line gives a turn and the session for the next (`Session.hear_turn`). The conversation is put
together from the turns by induction on the lines, and what is shown of it in one of the two ways
(`Channel`) is put together with it.
-/

namespace DialectScript

/-! ## Lines of input -/

namespace Text

/-- A byte sequence cut into lines. A line feed ends a line and takes one carriage return before it
along; what is behind the last line feed is a line if there is anything. -/
inductive Cut : List UInt8 → List (List UInt8) → Prop
  | nil : Cut [] []
  | rest {line : List UInt8} : 10 ∉ line → line ≠ [] → Cut line [line]
  | lineFeed {line rest : List UInt8} {lines : List (List UInt8)} :
      10 ∉ line → line.getLast? ≠ some 13 → Cut rest lines →
      Cut (line ++ 10 :: rest) (line :: lines)
  | carriageReturn {line rest : List UInt8} {lines : List (List UInt8)} :
      10 ∉ line → Cut rest lines → Cut (line ++ 13 :: 10 :: rest) (line :: lines)

/-- A byte in front of a cut goes to the first line. -/
theorem Cut.cons {b : UInt8} {bs line : List UInt8} {lines : List (List UInt8)} (hb : b ≠ 10)
    (hpair : ∀ rest, b = 13 → bs ≠ 10 :: rest) (h : Cut bs (line :: lines)) :
    Cut (b :: bs) ((b :: line) :: lines) := by
  cases h with
  | rest hline _ => exact .rest (List.not_mem_cons_of_ne_of_not_mem hb.symm hline) nofun
  | @lineFeed _ rest _ hline hlast hrest =>
    refine .lineFeed (List.not_mem_cons_of_ne_of_not_mem hb.symm hline) ?_ hrest
    cases line with
    | nil =>
      intro hlast'
      rw [List.getLast?_singleton, Option.some.injEq] at hlast'
      exact hpair rest hlast' rfl
    | cons c line => rwa [List.getLast?_cons_cons]
  | carriageReturn hline hrest =>
    exact .carriageReturn (List.not_mem_cons_of_ne_of_not_mem hb.symm hline) hrest

theorem Cut.eq_nil {bs : List UInt8} (h : Cut bs []) : bs = [] := by
  cases h
  rfl

/-- The input is read in lines. -/
theorem cut_byteLines (bs : List UInt8) : Cut bs (byteLines bs) := by
  -- Every byte but a line feed goes in front of the line behind it.
  induction bs using byteLines.induct with
  | case1 => exact .nil
  | case2 bs ih =>
    rw [byteLines]
    exact .carriageReturn List.not_mem_nil ih
  | case3 b bs hpair hb ih =>
    rw [byteLines.eq_3 b bs hpair, if_pos hb]
    obtain rfl : b = 10 := eq_of_beq hb
    exact .lineFeed List.not_mem_nil nofun ih
  | case4 b bs hpair hb hempty ih =>
    rw [byteLines.eq_3 b bs hpair, if_neg hb, hempty]
    rw [hempty] at ih
    obtain rfl := ih.eq_nil
    have hb' : b ≠ 10 := fun h => hb (beq_iff_eq.2 h)
    exact .rest (List.not_mem_cons_of_ne_of_not_mem hb'.symm List.not_mem_nil) nofun
  | case5 b bs hpair hb line lines hlines ih =>
    rw [byteLines.eq_3 b bs hpair, if_neg hb, hlines]
    rw [hlines] at ih
    exact ih.cons (fun h => hb (beq_iff_eq.2 h)) fun rest hb' hbs => hpair rest hb' hbs

end Text

namespace Session

/-- A line of input as it is taken: without the white space around it. -/
def trimmed (input : String) : String := .ofList (Text.trim input.toList)

/-- The inputs that are taken in: those before the first line that ends the conversation. -/
def taken : List (Option String) → List String
  | some input :: rest => if trimmed input = "exit" then [] else input :: taken rest
  | _ => []

/-- The lines of inputs that are evaluated: those that are not blank. -/
def evaluated (inputs : List String) : List String := (inputs.map trimmed).filter (· ≠ "")

/-- The session behind lines that are evaluated one after another, whatever becomes of each. -/
def after (fuel : Nat) (s : Session) (lines : List String) : Session :=
  lines.foldl (fun s line => (s.runSource fuel line).2.release.2) s

/-- No line runs out of fuel: the evaluation of each of them ends. -/
def Ends (fuel : Nat) (s : Session) (lines : List String) : Prop :=
  ∀ (i : Nat) (line : String), lines[i]? = some line →
    ((s.after fuel (lines.take i)).runSource fuel line).1 ≠ .outOfFuel

/-- The session that a conversation leaves. -/
def left (draw : Report.Drawing) (fuel : Nat) (s : Session) : List (Option String) → Session
  | [] => s
  | input :: rest =>
    match s.hear draw fuel input with
    | (_, .stop _) => s
    | (_, .goOn s) => s.left draw fuel rest

/-! ## Turns -/

/-- What is written about the outcome of a line: nothing about null, and an error as it is drawn. -/
inductive Says (draw : Report.Drawing) (h : Heap) (line : String) : Outcome → String → Prop
  | null : Says draw h line (.value .null) ""
  | value {v : Value} : v ≠ .null → Says draw h line (.value v) (h.display v ++ "\n")
  | syntaxError (e : SyntaxError) :
      Says draw h line (.syntaxError e) (e.reportWith draw lineName line)
  | fault (f : Fault) : Says draw h line (.fault f) f.report

/-- What is printed while a line is evaluated, and what is written then. A blank line is not
evaluated. -/
inductive Answers (draw : Report.Drawing) (fuel : Nat) (s : Session) :
    String → String × String → Prop
  | blank : Answers draw fuel s "" ("", "")
  | evaluated {line answer : String} {outcome : Outcome} {t : Session} : line ≠ "" →
      s.runSource fuel line = (outcome, t) → Says draw t.state.heap line outcome answer →
      Answers draw fuel s line (t.release.1, answer)

/-- How a conversation closes in front of the rest of its lines: at their end, at one that is to end
it, or at one that cannot be read. -/
inductive Closes : List (Option String) → String → Ending → Prop
  | atEnd : Closes [] (prompt ++ "\n" ++ goodbye) .finished
  | exit {input : String} {rest : List (Option String)} :
      trimmed input = "exit" → Closes (some input :: rest) (prompt ++ goodbye) .finished
  | unreadable {rest : List (Option String)} : Closes (none :: rest) prompt .unreadable

/-- A conversation has a turn for each input that is taken in, and closes behind them. -/
structure Converses (draw : Report.Drawing) (fuel : Nat) (s : Session)
    (lines : List (Option String)) (turns : List (String × String)) (closing : String)
    (ending : Ending) : Prop where
  closes : ∃ rest, lines = (taken lines).map some ++ rest ∧ Closes rest closing ending
  stays : ∀ input ∈ taken lines, trimmed input ≠ "exit"
  length : turns.length = (taken lines).length
  /-- Every input is answered by the session behind the inputs before it. -/
  answers : ∀ (i : Nat) (input : String) (turn : String × String),
    (taken lines)[i]? = some input → turns[i]? = some turn →
    Answers draw fuel (s.after fuel (evaluated ((taken lines).take i))) (trimmed input) turn

end Session

/-! ## What is shown -/

/-- What a session writes itself. -/
def Piece.written : Piece → String
  | .said text => text
  | .printed _ => ""

/-- A way to show what is printed. -/
structure Channel where
  print : String → String
  print_empty : print "" = ""

namespace Channel

/-- Only what the session writes is shown. -/
def quiet : Channel := ⟨fun _ => "", rfl⟩

/-- All is shown. -/
def full : Channel := ⟨fun text => text, rfl⟩

def piece (channel : Channel) : Piece → String
  | .said text => text
  | .printed text => channel.print text

/-- What pieces show. -/
def pieces (channel : Channel) (ps : List Piece) : String := String.join (ps.map channel.piece)

/-- What turns show, each after a prompt. -/
def turns (channel : Channel) (turns : List (String × String)) : String :=
  String.join (turns.map fun turn => Session.prompt ++ channel.print turn.1 ++ turn.2)

variable (channel : Channel)

theorem written_eq : Piece.written = quiet.piece := by
  funext p
  cases p <;> rfl

theorem text_eq : Piece.text = full.piece := by
  funext p
  cases p <;> rfl

theorem pieces_nil : channel.pieces [] = "" := String.join_nil

theorem pieces_said (text : String) (ps : List Piece) :
    channel.pieces (.said text :: ps) = text ++ channel.pieces ps :=
  String.join_cons

theorem pieces_printed (text : String) (ps : List Piece) :
    channel.pieces (.printed text :: ps) = channel.print text ++ channel.pieces ps :=
  String.join_cons

theorem pieces_append (ps qs : List Piece) :
    channel.pieces (ps ++ qs) = channel.pieces ps ++ channel.pieces qs := by
  rw [pieces, List.map_append, String.join_append, pieces, pieces]

theorem turns_nil : channel.turns [] = "" := String.join_nil

theorem turns_cons (turn : String × String) (more : List (String × String)) :
    channel.turns (turn :: more) =
      Session.prompt ++ (channel.print turn.1 ++ turn.2) ++ channel.turns more := by
  simp only [turns, List.map_cons, String.join_cons, String.append_assoc]

end Channel

namespace Session

variable {draw : Report.Drawing} {fuel more : Nat} {s t : Session} {input line : String}
variable {inputs : List String}
variable {lines rest : List (Option String)} {closing : String} {ending : Ending}

/-! ## One line -/

theorem evaluated_blank (h : trimmed input = "") (inputs : List String) :
    evaluated (input :: inputs) = evaluated inputs := by
  simp [evaluated, h]

theorem evaluated_line (h : trimmed input ≠ "") (inputs : List String) :
    evaluated (input :: inputs) = trimmed input :: evaluated inputs := by
  simp [evaluated, h]

theorem after_evaluated_cons (fuel : Nat) (s : Session) (input : String) (inputs : List String) :
    s.after fuel (evaluated (input :: inputs)) =
      (s.after fuel (evaluated [input])).after fuel (evaluated inputs) := by
  have happend : evaluated (input :: inputs) = evaluated [input] ++ evaluated inputs := by
    rw [evaluated, List.map_cons, ← List.singleton_append, List.filter_append]
    rfl
  rw [happend]
  exact List.foldl_append

theorem says_reply (draw : Report.Drawing) (h : Heap) (line : String) {outcome : Outcome}
    (hends : outcome ≠ .outOfFuel) : Says draw h line outcome (reply draw h line outcome) := by
  cases outcome with
  | value v =>
    cases v with
    | null => exact .null
    | _ => exact .value nofun
  | syntaxError e => exact .syntaxError e
  | fault f => exact .fault f
  | outOfFuel => exact absurd rfl hends

theorem Ends.head {lines : List String} (h : s.Ends fuel (line :: lines)) :
    (s.runSource fuel line).1 ≠ .outOfFuel :=
  h 0 line rfl

theorem Ends.tail {lines : List String} (h : s.Ends fuel (line :: lines)) :
    (s.after fuel [line]).Ends fuel lines :=
  fun i line' hline => h (i + 1) line' hline

/-- What follows an input does not run out of fuel, whether the input is blank or not. -/
theorem Ends.behind (h : s.Ends fuel (evaluated (input :: inputs))) :
    (s.after fuel (evaluated [input])).Ends fuel (evaluated inputs) := by
  by_cases hblank : trimmed input = ""
  · rw [evaluated_blank hblank] at h ⊢
    exact h
  · rw [evaluated_line hblank] at h ⊢
    exact h.tail

theorem hear_exit (h : trimmed input = "exit") :
    s.hear draw fuel (some input) = ([.said goodbye], .stop .finished) := by
  rw [hear]
  exact if_pos h

theorem hear_blank (h : trimmed input = "") : s.hear draw fuel (some input) = ([], .goOn s) := by
  have hexit : trimmed input ≠ "exit" := by rw [h]; decide
  rw [hear]
  exact (if_neg hexit).trans (if_pos h)

theorem hear_line (hexit : trimmed input ≠ "exit") (hblank : trimmed input ≠ "") :
    s.hear draw fuel (some input) =
      ((s.answer draw fuel (trimmed input)).1, .goOn (s.answer draw fuel (trimmed input)).2) := by
  rw [hear]
  exact (if_neg hexit).trans (if_neg hblank)

/-- A line that does not end the conversation has its turn. The session goes on behind it. -/
theorem hear_turn (draw : Report.Drawing) (hexit : trimmed input ≠ "exit")
    (hends : s.Ends fuel (evaluated (input :: inputs))) :
    ∃ (ps : List Piece) (turn : String × String), Answers draw fuel s (trimmed input) turn ∧
      s.hear draw fuel (some input) = (ps, .goOn (s.after fuel (evaluated [input]))) ∧
      ∀ channel : Channel, channel.pieces ps = channel.print turn.1 ++ turn.2 := by
  by_cases hblank : trimmed input = ""
  · refine ⟨[], ("", ""), ?_, ?_, fun channel => ?_⟩
    · rw [hblank]
      exact .blank
    · rw [hear_blank hblank, evaluated_blank hblank]
      rfl
    · rw [channel.pieces_nil, channel.print_empty]
      rfl
  · rw [evaluated_line hblank] at hends
    have houtcome := hends.head
    cases hrun : s.runSource fuel (trimmed input) with
    | mk outcome t =>
      rw [hrun] at houtcome
      have hafter : s.after fuel (evaluated [input]) = t.release.2 := by
        rw [evaluated_line hblank, after, List.foldl_cons, hrun]
        rfl
      have hanswer : s.answer draw fuel (trimmed input) =
          ([.printed t.release.1, .said (reply draw t.state.heap (trimmed input) outcome)],
            t.release.2) := by
        rw [answer, hrun]
        rfl
      refine ⟨(s.answer draw fuel (trimmed input)).1, (t.release.1, _),
        .evaluated hblank hrun (says_reply draw _ _ houtcome), ?_, fun channel => ?_⟩
      · rw [hear_line hexit hblank, hanswer, hafter]
      · rw [hanswer, channel.pieces_printed, channel.pieces_said, channel.pieces_nil,
          String.append_empty]

theorem taken_closes (h : Closes lines closing ending) : taken lines = [] := by
  cases h with
  | atEnd => rfl
  | exit hexit => exact if_pos hexit
  | unreadable => rfl

theorem taken_cons (hexit : trimmed input ≠ "exit") (rest : List (Option String)) :
    taken (some input :: rest) = input :: taken rest :=
  if_neg hexit

theorem converseLines_goOn {ps : List Piece} (h : s.hear draw fuel (some input) = (ps, .goOn t)) :
    s.converseLines draw fuel (some input :: rest) =
      (.said prompt :: ps ++ (t.converseLines draw fuel rest).1,
        (t.converseLines draw fuel rest).2) := by
  rw [converseLines, h]

theorem left_goOn {ps : List Piece} (h : s.hear draw fuel (some input) = (ps, .goOn t)) :
    s.left draw fuel (some input :: rest) = t.left draw fuel rest := by
  rw [left, h]

/-- How a conversation closes depends neither on the fuel nor on the session. -/
theorem converseLines_closes (h : Closes lines closing ending) :
    ∃ ps, (∀ channel : Channel, channel.pieces ps = closing) ∧
      ∀ (fuel : Nat) (s : Session), s.converseLines draw fuel lines = (ps, ending) ∧
        s.left draw fuel lines = s := by
  cases h with
  | atEnd => exact ⟨_, fun _ => rfl, fun _ _ => ⟨rfl, rfl⟩⟩
  | unreadable => exact ⟨_, fun _ => rfl, fun _ _ => ⟨rfl, rfl⟩⟩
  | exit hexit =>
    refine ⟨[.said prompt, .said goodbye], fun _ => rfl, fun fuel s => ⟨?_, ?_⟩⟩
    · rw [converseLines, hear_exit hexit]
    · rw [left, hear_exit hexit]

/-! ## Conversations -/

theorem Converses.close (h : Closes lines closing ending) :
    Converses draw fuel s lines [] closing ending where
  closes := ⟨lines, by rw [taken_closes h]; rfl, h⟩
  stays := by simp [taken_closes h]
  length := by rw [taken_closes h]; rfl
  answers := by simp

theorem Converses.turn {turn : String × String} {turns : List (String × String)}
    (hexit : trimmed input ≠ "exit") (hturn : Answers draw fuel s (trimmed input) turn)
    (h : Converses draw fuel (s.after fuel (evaluated [input])) rest turns closing ending) :
    Converses draw fuel s (some input :: rest) (turn :: turns) closing ending where
  closes := by
    obtain ⟨tail, hrest, hcloses⟩ := h.closes
    refine ⟨tail, ?_, hcloses⟩
    rw [taken_cons hexit, List.map_cons, List.cons_append, ← hrest]
  stays := by
    rw [taken_cons hexit]
    exact List.forall_mem_cons.2 ⟨hexit, h.stays⟩
  length := by rw [taken_cons hexit, List.length_cons, List.length_cons, h.length]
  answers i input' turn' hinput hturn' := by
    rw [taken_cons hexit] at hinput ⊢
    cases i with
    | zero =>
      cases hinput
      cases hturn'
      exact hturn
    | succ i =>
      rw [List.take_succ_cons, after_evaluated_cons]
      exact h.answers i input' turn' hinput hturn'

/-- The two cases of a conversation: it closes, or a line has its turn. -/
theorem induction_on_turns {motive : List (Option String) → Prop}
    (closes : ∀ lines closing ending, Closes lines closing ending → motive lines)
    (turn : ∀ input rest, trimmed input ≠ "exit" → motive rest → motive (some input :: rest))
    (lines : List (Option String)) : motive lines := by
  induction lines with
  | nil => exact closes _ _ _ .atEnd
  | cons line rest ih =>
    cases line with
    | none => exact closes _ _ _ .unreadable
    | some input =>
      by_cases hexit : trimmed input = "exit"
      · exact closes _ _ _ (.exit hexit)
      · exact turn input rest hexit ih

/-- Lines are taken in turn by turn. -/
theorem converseLines_turns (draw : Report.Drawing)
    (hends : s.Ends fuel (evaluated (taken lines))) :
    ∃ (turns : List (String × String)) (closing : String),
      Converses draw fuel s lines turns closing (s.converseLines draw fuel lines).2 ∧
      s.left draw fuel lines = s.after fuel (evaluated (taken lines)) ∧
      ∀ channel : Channel,
        channel.pieces (s.converseLines draw fuel lines).1 = channel.turns turns ++ closing := by
  induction lines using induction_on_turns generalizing s with
  | closes lines closing ending h =>
    obtain ⟨ps, hshown, hlines⟩ := converseLines_closes h
    obtain ⟨hpieces, hleft⟩ := hlines fuel s
    rw [hpieces, hleft, taken_closes h]
    refine ⟨[], closing, .close h, rfl, fun channel => ?_⟩
    rw [hshown, channel.turns_nil, String.empty_append]
  | turn input rest hexit ih =>
    rw [taken_cons hexit] at hends
    obtain ⟨ps, turn, hturn, hhear, hshown⟩ := hear_turn draw hexit hends
    obtain ⟨turns, closing, hrest, hleft, hmore⟩ := ih hends.behind
    have hafter := after_evaluated_cons fuel s input (taken rest)
    rw [converseLines_goOn hhear, left_goOn hhear, taken_cons hexit, hafter]
    refine ⟨turn :: turns, closing, hrest.turn hexit hturn, hleft, fun channel => ?_⟩
    rw [channel.pieces_append, channel.pieces_said, hshown, hmore, channel.turns_cons,
      ← String.append_assoc]

/-! ## One environment -/

theorem runSource_scope (fuel : Nat) (s : Session) (line : String) :
    (s.runSource fuel line).2.scope = s.scope ∧ (s.runSource fuel line).2.dialect = s.dialect := by
  rw [runSource]
  cases Program.ofSource s.dialect line with
  | error e => exact ⟨rfl, rfl⟩
  | ok program =>
    show (s.runProgram fuel program).2.scope = _ ∧ (s.runProgram fuel program).2.dialect = _
    rw [runProgram]
    cases program.run fuel s.scope s.state with
    | ok v t => exact ⟨rfl, rfl⟩
    | error e t => cases e <;> exact ⟨rfl, rfl⟩

theorem after_scope (fuel : Nat) (s : Session) (lines : List String) :
    (s.after fuel lines).scope = s.scope ∧ (s.after fuel lines).dialect = s.dialect := by
  induction lines generalizing s with
  | nil => exact ⟨rfl, rfl⟩
  | cons line rest ih =>
    obtain ⟨hscope, hdialect⟩ := ih (s.runSource fuel line).2.release.2
    obtain ⟨hscope', hdialect'⟩ := runSource_scope fuel s line
    exact ⟨hscope.trans hscope', hdialect.trans hdialect'⟩

/-! ## More fuel -/

theorem runSource_of_le (hle : fuel ≤ more) (h : (s.runSource fuel line).1 ≠ .outOfFuel) :
    s.runSource more line = s.runSource fuel line := by
  rw [runSource] at h ⊢
  rw [runSource]
  cases hprogram : Program.ofSource s.dialect line with
  | error e => rfl
  | ok program =>
    rw [hprogram] at h
    have hends : ∀ t, program.run fuel s.scope s.state ≠ .error .outOfFuel t := by
      intro t ht
      refine h ?_
      show (s.runProgram fuel program).1 = _
      rw [runProgram, ht]
    show s.runProgram more program = s.runProgram fuel program
    rw [runProgram, runProgram, Program.run_of_le hle s.scope program hends]

/-- An input whose line ends is heard in the same way with more fuel. -/
theorem hear_of_le (hle : fuel ≤ more) (hexit : trimmed input ≠ "exit")
    (h : s.Ends fuel (evaluated (input :: inputs))) :
    s.hear draw more (some input) = s.hear draw fuel (some input) := by
  by_cases hblank : trimmed input = ""
  · rw [hear_blank hblank, hear_blank hblank]
  · rw [evaluated_line hblank] at h
    rw [hear_line hexit hblank, hear_line hexit hblank, answer, answer,
      runSource_of_le hle h.head]

theorem converseLines_of_le (hle : fuel ≤ more) (h : s.Ends fuel (evaluated (taken lines))) :
    s.converseLines draw more lines = s.converseLines draw fuel lines ∧
      s.left draw more lines = s.left draw fuel lines := by
  induction lines using induction_on_turns generalizing s with
  | closes lines closing ending hcloses =>
    obtain ⟨ps, -, hlines⟩ := converseLines_closes hcloses
    rw [(hlines more s).1, (hlines fuel s).1, (hlines more s).2, (hlines fuel s).2]
    exact ⟨rfl, rfl⟩
  | turn input rest hexit ih =>
    rw [taken_cons hexit] at h
    obtain ⟨ps, turn, -, hhear, -⟩ := hear_turn draw hexit h
    obtain ⟨hlines, hleft⟩ := ih h.behind
    have hhear' := (hear_of_le hle hexit h).trans hhear
    rw [converseLines_goOn hhear, converseLines_goOn hhear', hlines, left_goOn hhear,
      left_goOn hhear', hleft]
    exact ⟨rfl, rfl⟩

/-! ## The session as a whole -/

/-- An interactive session takes in the lines before its close one after another, each in the
session that the lines before have left, and shows the welcome, the turns and the close. -/
theorem converse_fold (draw : Report.Drawing) (fuel : Nat) (s : Session)
    (lines : List (Option String)) (hends : s.Ends fuel (evaluated (taken lines))) :
    (∃ (turns : List (String × String)) (closing : String),
      Converses draw fuel s lines turns closing (s.converseWith draw fuel lines).2 ∧
      String.join ((s.converseWith draw fuel lines).1.map Piece.written) =
        welcome ++ String.join (turns.map fun turn => prompt ++ turn.2) ++ closing ∧
      String.join ((s.converseWith draw fuel lines).1.map Piece.text) =
        welcome ++ String.join (turns.map fun turn => prompt ++ turn.1 ++ turn.2) ++ closing) ∧
    s.left draw fuel lines = s.after fuel (evaluated (taken lines)) ∧
    (∀ before, (s.after fuel before).scope = s.scope ∧
      (s.after fuel before).dialect = s.dialect) ∧
    (∀ more, fuel ≤ more → s.converseWith draw more lines = s.converseWith draw fuel lines ∧
      s.left draw more lines = s.left draw fuel lines) ∧
    ∀ input : ByteArray, ∃ cut, Text.Cut input.toList cut ∧
      Text.inputLines input = cut.map fun line => String.fromUTF8? ⟨line.toArray⟩ := by
  obtain ⟨turns, closing, hturns, hleft, hshown⟩ := converseLines_turns draw hends
  have hshown' (channel : Channel) : channel.pieces (s.converseWith draw fuel lines).1 =
      welcome ++ channel.turns turns ++ closing := by
    rw [String.append_assoc, ← hshown]
    exact channel.pieces_said welcome _
  refine ⟨⟨turns, closing, hturns, ?_, ?_⟩, hleft, after_scope fuel s, fun more hle => ?_,
    fun input => ⟨_, Text.cut_byteLines _, rfl⟩⟩
  · have hquiet := hshown' .quiet
    simp only [Channel.turns, Channel.quiet, String.append_empty] at hquiet
    rw [Channel.written_eq]
    exact hquiet
  · rw [Channel.text_eq]
    exact hshown' .full
  · obtain ⟨hlines, hleft⟩ := converseLines_of_le hle hends
    exact ⟨by rw [converseWith, converseWith, hlines], hleft⟩

/-- A conversation that takes in a blank line, a line with a value, one with a fault and one with a
syntax error, and closes at a line that cannot be read. -/
theorem converse_fold_unreadable :
    let s : Session :=
      ⟨⟨⟨#[⟨.empty, none⟩], #[], #[], #[]⟩, .console "", .empty (some 8)⟩, 0, .standard⟩
    let lines : List (Option String) :=
      [some " ", some " \"a\" ", some "x\r", some ")", none, some "x"]
    let error : SyntaxError := ⟨.expectedExpression .rightParen ")", ⟨0, 1⟩⟩
    evaluated (taken lines) = ["\"a\"", "x", ")"] ∧ s.Ends 9 ["\"a\"", "x", ")"] ∧
      (∃ turns closing, s.Converses Report.draw 9 lines turns closing .unreadable) ∧
      String.join ((s.converseWith Report.draw 9 lines).1.map Piece.written) =
        welcome ++ (">> >> a\n>> runtime error: undeclared variable \x60x\x60\n>> " ++
          (error.report lineName ")" ++ ">> ")) ∧
      ∀ more, 9 ≤ more →
        s.converseWith Report.draw more lines = s.converseWith Report.draw 9 lines := by
  intro s lines error
  have htaken : evaluated (taken lines) = ["\"a\"", "x", ")"] := by
    subst lines
    cbv
  have htokens : tokenize .standard "\"a\"" =
      .ok [⟨.string, "a", ⟨0, 3⟩⟩, ⟨.endOfInput, "", ⟨3, 3⟩⟩] := by
    decide +kernel
  have htokens' : tokenize .standard "x" =
      .ok [⟨.identifier, "x", ⟨0, 1⟩⟩, ⟨.endOfInput, "", ⟨1, 1⟩⟩] := by
    decide +kernel
  have htokens'' : tokenize .standard ")" =
      .ok [⟨.rightParen, ")", ⟨0, 1⟩⟩, ⟨.endOfInput, "", ⟨1, 1⟩⟩] := by
    decide +kernel
  -- None of the three lines changes the session, so each of them is run from the first one.
  have hvalue : s.runSource 9 "\"a\"" = (.value (.string "a"), s) := by
    rw [runSource, Program.ofSource, htokens]
    subst s
    cbv
  have hfault : s.runSource 9 "x" = (.fault ⟨.undeclaredVariable "x", none⟩, s) := by
    rw [runSource, Program.ofSource, htokens']
    subst s
    cbv
  have herror : s.runSource 9 ")" = (.syntaxError error, s) := by
    rw [runSource, Program.ofSource, htokens'']
    subst s error
    cbv
  have hends : s.Ends 9 ["\"a\"", "x", ")"] := by
    have hafter : s.after 9 ["\"a\""] = s := by
      rw [after, List.foldl_cons, hvalue]
      rfl
    have hafter' : s.after 9 ["\"a\"", "x"] = s := by
      rw [after, List.foldl_cons, List.foldl_cons, hvalue]
      show (s.runSource 9 "x").2.release.2 = s
      rw [hfault]
      rfl
    intro i line hline
    rcases i with _ | _ | _ | i <;> cases hline
    · rw [List.take_zero, after, List.foldl_nil, hvalue]
      exact Outcome.noConfusion
    · rw [List.take_succ_cons, List.take_zero, hafter, hfault]
      exact Outcome.noConfusion
    · rw [List.take_succ_cons, List.take_succ_cons, List.take_zero, hafter', herror]
      exact Outcome.noConfusion
  have hpieces : s.converseWith Report.draw 9 lines =
      ([.said welcome, .said prompt, .said prompt, .printed "", .said "a\n", .said prompt,
        .printed "", .said "runtime error: undeclared variable \x60x\x60\n", .said prompt,
        .printed "", .said (error.report lineName ")"), .said prompt], .unreadable) := by
    have hblank : s.hear Report.draw 9 (some " ") = ([], .goOn s) := hear_blank (by decide)
    have hanswer : s.hear Report.draw 9 (some " \"a\" ") =
        ([.printed "", .said "a\n"], .goOn s) := by
      have htrimmed : trimmed " \"a\" " = "\"a\"" := by decide
      rw [hear_line (by decide) (by decide), htrimmed, answer, hvalue]
      rfl
    have hreport : s.hear Report.draw 9 (some "x\r") =
        ([.printed "", .said "runtime error: undeclared variable \x60x\x60\n"], .goOn s) := by
      have htrimmed : trimmed "x\r" = "x" := by decide
      rw [hear_line (by decide) (by decide), htrimmed, answer, hfault]
      rfl
    have hdrawn : s.hear Report.draw 9 (some ")") =
        ([.printed "", .said (error.report lineName ")")], .goOn s) := by
      have htrimmed : trimmed ")" = ")" := by decide
      rw [hear_line (by decide) (by decide), htrimmed, answer, herror]
      rfl
    rw [converseWith, converseLines_goOn hblank, converseLines_goOn hanswer,
      converseLines_goOn hreport, converseLines_goOn hdrawn]
    rfl
  obtain ⟨⟨turns, closing, hturns, -⟩, -, -, hmore, -⟩ :=
    converse_fold Report.draw 9 s lines (htaken ▸ hends)
  rw [hpieces] at hturns
  refine ⟨htaken, hends, ⟨turns, closing, hturns⟩, ?_, fun more hle => (hmore more hle).1⟩
  rw [hpieces]
  rfl

end Session

end DialectScript
