import DialectScript.Token.Scan

/-!
# Syntax errors

Why a source is no program, and where. A failed scan is one of the causes.
-/

namespace DialectScript

/-- Why a source is no program. -/
inductive SyntaxCause where
  | lexical (cause : LexicalCause)
  | unexpectedToken (expected found : Kind) (text : String)
  | expectedExpression (found : Kind) (text : String)
  | missingInitializer (name : String)
  | invalidParameter (found : Kind) (text : String)
  | invalidNumber (text : String)
deriving DecidableEq

/-- The wording of a cause. -/
def SyntaxCause.message : SyntaxCause → String
  | .lexical cause => cause.message
  | .unexpectedToken expected found text =>
    s!"expected {expected.phrase}, found {Token.describe found text}"
  | .expectedExpression found text =>
    s!"expected an expression, found {Token.describe found text}"
  | .missingInitializer name => s!"constant `{name}` must be initialized"
  | .invalidParameter found text =>
    s!"function parameters must be names, found {Token.describe found text}"
  | .invalidNumber text => s!"number literal `{text}` is out of range"

/-- A cause and the place it concerns. -/
structure SyntaxError where
  cause : SyntaxCause
  span : Span
deriving DecidableEq

namespace SyntaxError

/-- A failed scan as a syntax error. -/
def ofLexical (e : LexicalError) : SyntaxError := ⟨.lexical e.cause, e.span⟩

/-- A token of another kind stood where one kind was required. -/
def unexpected (expected : Kind) (found : Token) : SyntaxError :=
  ⟨.unexpectedToken expected found.kind found.text, found.span⟩

/-- A token that starts no expression stood where one was required. -/
def noExpression (found : Token) : SyntaxError :=
  ⟨.expectedExpression found.kind found.text, found.span⟩

/-- A token that is no name stood in a parameter list. -/
def noParameter (found : Token) : SyntaxError :=
  ⟨.invalidParameter found.kind found.text, found.span⟩

end SyntaxError

end DialectScript
