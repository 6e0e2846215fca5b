import DialectScript.Options
import DialectScript.Program.Grammar
import DialectScript.Report
import DialectScript.Run.Eval

/-!
# Sessions

A session keeps one state and one global scope for all the sources that are run in it, so that
declarations persist; an error ends a source and not the session. `Session.converseWith` is the
interactive session over a list of input lines: every line is answered after a prompt, up to
`exit` or the end of the input. The drawing of syntax errors is left open.
-/

namespace DialectScript

/-- A state, the scope that sources are run in, and the dialect they start in. -/
structure Session where
  state : State
  scope : ScopeId
  dialect : Dialect

/-- How running a source ends. -/
inductive Outcome where
  | value (v : Value)
  | syntaxError (e : SyntaxError)
  | fault (f : Fault)
  | outOfFuel
deriving DecidableEq

/-- A piece of the text of an interactive session: what the session writes, and what a script
prints. -/
inductive Piece where
  | said (text : String)
  | printed (text : String)
deriving DecidableEq

/-- The text of a piece. -/
def Piece.text : Piece → String
  | .said text => text
  | .printed text => text

/-- How an interactive session ends. -/
inductive Ending where
  | finished
  | unreadable
deriving DecidableEq

/-- What follows a line of input. -/
inductive Next where
  | goOn (s : Session)
  | stop (ending : Ending)

namespace Session

/-- A session with a global scope that holds the built-ins. -/
def start (options : Options) (output : Output) : Session :=
  let (scope, heap) := Heap.empty.global
  ⟨⟨heap, output, .empty (some options.maxDepth)⟩, scope, options.dialect⟩

/-- Run a program. -/
def runProgram (fuel : Nat) (s : Session) (program : Program) : Outcome × Session :=
  match program.run fuel s.scope s.state with
  | .ok v state => (.value v, { s with state })
  | .error (.fault f) state => (.fault f, { s with state })
  | .error .outOfFuel state => (.outOfFuel, { s with state })

/-- Read a source and run it. -/
def runSource (fuel : Nat) (s : Session) (source : String) : Outcome × Session :=
  match Program.ofSource s.dialect source with
  | .ok program => s.runProgram fuel program
  | .error e => (.syntaxError e, s)

/-- What the console has waiting, and the session with nothing waiting. -/
def release (s : Session) : String × Session :=
  let (text, output) := s.state.output.release
  (text, { s with state := { s.state with output } })

/-! ## Talking to a person -/

def welcome : String := "Welcome to the REPL! Type 'exit' to quit.\n"

def prompt : String := ">> "

def goodbye : String := "Goodbye!\n"

/-- The name under which a line is reported. -/
def lineName : String := "<repl>"

/-- The message for a line that cannot be read. -/
def unreadableMessage : String := "stream did not contain valid UTF-8"

/-- What is said about the outcome of a line: nothing about null. -/
def reply (draw : Report.Drawing) (h : Heap) (line : String) : Outcome → String
  | .value .null => ""
  | .value v => h.display v ++ "\n"
  | .syntaxError e => e.reportWith draw lineName line
  | .fault f => f.report
  | .outOfFuel => ""

/-- Run a line and answer it. -/
def answer (draw : Report.Drawing) (fuel : Nat) (s : Session) (line : String) :
    List Piece × Session :=
  let (outcome, s) := s.runSource fuel line
  let (printed, s) := s.release
  ([.printed printed, .said (reply draw s.state.heap line outcome)], s)

/-- Take in a line of input. A blank line is passed over, `exit` ends the session, and so does a
line that cannot be read, without a farewell. -/
def hear (draw : Report.Drawing) (fuel : Nat) (s : Session) : Option String → List Piece × Next
  | none => ([], .stop .unreadable)
  | some input =>
    let line := String.ofList (Text.trim input.toList)
    if line = "exit" then ([.said goodbye], .stop .finished)
    else if line = "" then ([], .goOn s)
    else
      let (pieces, s) := s.answer draw fuel line
      (pieces, .goOn s)

/-- What is said when the input is at its end. -/
def farewell : List Piece := [.said "\n", .said goodbye]

/-- Take in lines of input, each after a prompt. -/
def converseLines (draw : Report.Drawing) (fuel : Nat) (s : Session) :
    List (Option String) → List Piece × Ending
  | [] => (.said prompt :: farewell, .finished)
  | input :: rest =>
    match s.hear draw fuel input with
    | (pieces, .stop ending) => (.said prompt :: pieces, ending)
    | (pieces, .goOn s) =>
      let (more, ending) := s.converseLines draw fuel rest
      (.said prompt :: pieces ++ more, ending)

/-- An interactive session over input lines. -/
def converseWith (draw : Report.Drawing) (fuel : Nat) (s : Session)
    (lines : List (Option String)) : List Piece × Ending :=
  let (pieces, ending) := s.converseLines draw fuel lines
  (.said welcome :: pieces, ending)

end Session

end DialectScript
