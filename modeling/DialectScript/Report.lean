import DialectScript.Program.Error
import DialectScript.Run.Fault

/-!
# Reports

How errors are shown to a person. A syntax error is a message about a place in a source, with a
label at the place; how that is drawn is left open (`Report.Drawing`). A runtime fault is a line of
text and the calls that were active.
-/

namespace DialectScript

namespace Report

/-- A span kept inside a source of the given length. -/
def clampTo (length : Nat) (s : Span) : Span :=
  let start := if s.start ≤ length then s.start else length
  ⟨start, if s.stop ≤ start then start else if s.stop ≤ length then s.stop else length⟩

/-- A way to draw a message about a place in a named source, with a label at the place. -/
abbrev Drawing := (name source : String) → (place : Span) → (message label : String) → String

end Report

namespace SyntaxCause

/-- The part of the work that found the error. -/
def phase : SyntaxCause → String
  | .lexical _ => "lex"
  | _ => "syntax"

/-- The short text at the place of an error. -/
def label : SyntaxCause → String
  | .lexical _ => "not valid here"
  | .unexpectedToken .. => "unexpected token"
  | .expectedExpression .. => "expected an expression here"
  | .missingInitializer _ => "needs `= value`"
  | .invalidParameter .. => "not a parameter name"
  | .invalidNumber _ => "number too large"

end SyntaxCause

/-- The report of a syntax error in a named source. Its place is kept inside the source. -/
def SyntaxError.reportWith (draw : Report.Drawing) (name source : String) (e : SyntaxError) :
    String :=
  draw name source (Report.clampTo source.utf8ByteSize e.span)
    (e.cause.phase ++ " error: " ++ e.cause.message) e.cause.label

/-- The report of a runtime fault. -/
def Fault.report (f : Fault) : String :=
  "runtime error: " ++ f.cause.message ++ "\n" ++ Backtrace.text (f.backtrace.getD [])

end DialectScript
