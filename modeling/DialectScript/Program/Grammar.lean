import DialectScript.Decimal.Numeral
import DialectScript.Program.Basic
import DialectScript.Program.Reader

/-!
# The grammar

One reader per phrase of the language. From loosest to tightest an expression is an assignment
(to the right), an object literal, a chain of binary operators (to the left, five levels), a
primary expression with suffixes. A statement may be followed by one semicolon; the body of a
branch or loop is a block or a single statement; every non-empty list may end in a comma.

The readers call each other with a bound on the depth of the calls, and `Program.ofTokens` sets
it from the number of tokens: no phrase goes deeper than sixteen calls without taking one.
-/

namespace DialectScript

/-- The operators of one precedence level, by the token that writes them. -/
abbrev Operator.Level := Kind → Option Operator

/-- The precedence levels, loosest first. -/
def Operator.levels : List Operator.Level :=
  [ fun | .orOr => some .or
        | _ => none,
    fun | .andAnd => some .and
        | _ => none,
    fun | .equalEqual => some .equal
        | .notEqual => some .notEqual
        | .less => some .less
        | .greater => some .greater
        | .lessEqual => some .lessEqual
        | .greaterEqual => some .greaterEqual
        | _ => none,
    fun | .plus => some .add
        | .minus => some .subtract
        | _ => none,
    fun | .star => some .multiply
        | .slash => some .divide
        | .percent => some .remainder
        | _ => none ]

namespace Grammar

open Reader

/-- Parameter names up to the closing parenthesis. -/
def parameters : Nat → Reader (List String)
  | 0 => exhausted
  | n + 1 => do
    let token ← peek
    if token.kind = .rightParen then return []
    else if token.kind = .identifier then
      let _ ← take
      if ← accept .comma then
        let names ← parameters n
        return token.text :: names
      else return [token.text]
    else fail (.noParameter token)

mutual

/-- An assignment, or an expression that could be the target of one. -/
def expression : Nat → Reader Expr
  | 0 => exhausted
  | n + 1 => do
    let target ← unassigned n
    if ← accept .equals then
      let value ← expression n
      return .assign target value
    else return target

/-- An object literal, or a chain of binary operators. -/
def unassigned : Nat → Reader Expr
  | 0 => exhausted
  | n + 1 => do
    if ← accept .leftBrace then
      let entries ← properties n
      let _ ← expect .rightBrace
      return .object entries
    else binary n Operator.levels

/-- The entries of an object literal up to the closing brace. -/
def properties : Nat → Reader (List (Property Expr))
  | 0 => exhausted
  | n + 1 => do
    let token ← peek
    if token.kind = .rightBrace then return []
    else
      let entry ← property n
      if ← accept .comma then
        let entries ← properties n
        return entry :: entries
      else return [entry]

/-- An entry of an object literal. -/
def property : Nat → Reader (Property Expr)
  | 0 => exhausted
  | n + 1 => do
    let key ← name
    if ← accept .colon then
      let value ← expression n
      return .pair key value
    else return .shorthand key

/-- A chain of operators of the first level given, over operands of the levels behind it. -/
def binary : Nat → List Operator.Level → Reader Expr
  | 0, _ => exhausted
  | n + 1, [] => suffixed n
  | n + 1, level :: tighter => do
    let left ← binary n tighter
    chain n level tighter left

/-- The operators of a level that follow an operand, grouped to the left. -/
def chain : Nat → Operator.Level → List Operator.Level → Expr → Reader Expr
  | 0, _, _, _ => exhausted
  | n + 1, level, tighter, left => do
    let token ← peek
    match level token.kind with
    | none => return left
    | some operator =>
      let _ ← take
      let right ← binary n tighter
      chain n level tighter (.binary operator left right)

/-- A primary expression with its member accesses and calls. -/
def suffixed : Nat → Reader Expr
  | 0 => exhausted
  | n + 1 => do
    let base ← primary n
    suffixes n base

/-- The member accesses and calls that follow an expression. -/
def suffixes : Nat → Expr → Reader Expr
  | 0, _ => exhausted
  | n + 1, base => do
    let token ← peek
    match token.kind with
    | .dot =>
      let _ ← take
      let key ← name
      suffixes n (.member base (.identifier key) .dot)
    | .leftBracket =>
      let _ ← take
      let index ← expression n
      let _ ← expect .rightBracket
      suffixes n (.member base index .bracket)
    | .leftParen =>
      let _ ← take
      let arguments ← expressions n .rightParen
      let _ ← expect .rightParen
      suffixes n (.call base arguments)
    | _ => return base

/-- A name, a literal, a parenthesised expression or an array literal. -/
def primary : Nat → Reader Expr
  | 0 => exhausted
  | n + 1 => do
    let token ← peek
    match token.kind with
    | .identifier =>
      let _ ← take
      return .identifier token.text
    | .number =>
      let _ ← take
      match Numeral.value? token.text with
      | some value => return .number value
      | none => fail ⟨.invalidNumber token.text, token.span⟩
    | .string =>
      let _ ← take
      return .string token.text
    | .leftParen =>
      let _ ← take
      let inner ← expression n
      let _ ← expect .rightParen
      return inner
    | .leftBracket =>
      let _ ← take
      let elements ← expressions n .rightBracket
      let _ ← expect .rightBracket
      return .array elements
    | _ => fail (.noExpression token)

/-- Expressions separated by commas, up to the closing token. -/
def expressions : Nat → Kind → Reader (List Expr)
  | 0, _ => exhausted
  | n + 1, close => do
    let token ← peek
    if token.kind = close then return []
    else
      let item ← expression n
      if ← accept .comma then
        let items ← expressions n close
        return item :: items
      else return [item]

end

mutual

/-- A statement and a semicolon that may follow it. -/
def statement : Nat → Reader Stmt
  | 0 => exhausted
  | n + 1 => do
    let result ← bareStatement n
    let _ ← accept .semicolon
    return result

/-- A statement without its semicolon. -/
def bareStatement : Nat → Reader Stmt
  | 0 => exhausted
  | n + 1 => do
    let token ← peek
    match token.kind with
    | .letKeyword =>
      let _ ← take
      let declared ← expect .identifier
      if ← accept .equals then
        let init ← expression n
        return .declare .mutable declared.text (some init)
      else return .declare .mutable declared.text none
    | .constKeyword =>
      let _ ← take
      let declared ← expect .identifier
      if ← accept .equals then
        let init ← expression n
        return .declare .constant declared.text (some init)
      else fail ⟨.missingInitializer declared.text, token.span.merge declared.span⟩
    | .functionKeyword =>
      let _ ← take
      let declared ← name
      let _ ← expect .leftParen
      let params ← parameters n
      let _ ← expect .rightParen
      let statements ← block n
      return .function declared params statements
    | .ifKeyword =>
      let _ ← take
      let condition ← expression n
      let thenBody ← body n
      if ← accept .elseKeyword then
        let elseBody ← body n
        return .branch condition thenBody (some elseBody)
      else return .branch condition thenBody none
    | .whileKeyword =>
      let _ ← take
      let condition ← expression n
      let statements ← body n
      return .loop condition statements
    | .importKeyword =>
      let _ ← take
      let path ← expect .string
      return .importPath path.text
    | _ =>
      let value ← expression n
      return .expression value

/-- The body of a branch or loop: a block or one statement. -/
def body : Nat → Reader (List Stmt)
  | 0 => exhausted
  | n + 1 => do
    let token ← peek
    if token.kind = .leftBrace then block n
    else
      let single ← statement n
      return [single]

/-- Statements between braces. -/
def block : Nat → Reader (List Stmt)
  | 0 => exhausted
  | n + 1 => do
    let _ ← expect .leftBrace
    let result ← statements n .rightBrace
    let _ ← expect .rightBrace
    return result

/-- Statements up to a token of the given kind or the end. -/
def statements : Nat → Kind → Reader (List Stmt)
  | 0, _ => exhausted
  | n + 1, stop => do
    let token ← peek
    if token.kind = stop ∨ token.kind = .endOfInput then return []
    else
      let first ← statement n
      let others ← statements n stop
      return first :: others

end

end Grammar

/-- The tokens before the first end marker, and the marker: the one found, or one placed behind
the last token. -/
def Token.splitAtEnd : List Token → List Token × Token
  | [] => ([], .endOfInput 0)
  | [t] => if t.kind = .endOfInput then ([], t) else ([t], .endOfInput t.span.stop)
  | t :: u :: ts =>
    if t.kind = .endOfInput then ([], t)
    else
      let (tokens, marker) := splitAtEnd (u :: ts)
      (t :: tokens, marker)

namespace Program

/-- A depth of calls that reading this many tokens cannot exceed. -/
def depthFor (tokenCount : Nat) : Nat := 16 * (tokenCount + 1)

/-- The program that a list of tokens spells, up to its first end marker. -/
def ofTokens (tokens : List Token) : Except SyntaxError Program :=
  let (ahead, marker) := Token.splitAtEnd tokens
  match Grammar.statements (depthFor ahead.length) .endOfInput marker ahead with
  | .done program _ => .ok program
  | .failed error => .error error
  | .exhausted => .error (.noExpression marker)

/-- The program that a source spells, scanned from the given dialect on. -/
def ofSource (d : Dialect) (source : String) : Except SyntaxError Program :=
  match tokenize d source with
  | .ok tokens => ofTokens tokens
  | .error error => .error (.ofLexical error)

end Program

end DialectScript
