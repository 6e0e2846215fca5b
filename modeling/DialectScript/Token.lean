import DialectScript.Span

/-!
# Tokens

A `Token` is a classified piece of source text: its `Kind`, the text it was written with and
where it stood. Keyword kinds say what a word means, not how it is spelled, so one grammar
serves every dialect.
-/

namespace DialectScript

/-- What a token is. -/
inductive Kind where
  | number
  | identifier
  | string
  | letKeyword
  | constKeyword
  | functionKeyword
  | ifKeyword
  | elseKeyword
  | whileKeyword
  | importKeyword
  | leftParen
  | rightParen
  | leftBrace
  | rightBrace
  | leftBracket
  | rightBracket
  | comma
  | colon
  | dot
  | semicolon
  | equals
  | plus
  | minus
  | star
  | slash
  | percent
  | equalEqual
  | notEqual
  | less
  | greater
  | lessEqual
  | greaterEqual
  | andAnd
  | orOr
  | endOfInput
deriving DecidableEq, Inhabited

namespace Kind

/-- Every kind, in the order of the declaration. -/
def all : List Kind :=
  [.number, .identifier, .string, .letKeyword, .constKeyword, .functionKeyword, .ifKeyword,
    .elseKeyword, .whileKeyword, .importKeyword, .leftParen, .rightParen, .leftBrace,
    .rightBrace, .leftBracket, .rightBracket, .comma, .colon, .dot, .semicolon, .equals,
    .plus, .minus, .star, .slash, .percent, .equalEqual, .notEqual, .less, .greater,
    .lessEqual, .greaterEqual, .andAnd, .orOr, .endOfInput]

/-- The short name shown in token listings. -/
def name : Kind → String
  | .number => "Number"
  | .identifier => "Identifier"
  | .string => "String"
  | .letKeyword => "Let"
  | .constKeyword => "Const"
  | .functionKeyword => "Fn"
  | .ifKeyword => "If"
  | .elseKeyword => "Else"
  | .whileKeyword => "While"
  | .importKeyword => "Import"
  | .leftParen => "LParen"
  | .rightParen => "RParen"
  | .leftBrace => "LBrace"
  | .rightBrace => "RBrace"
  | .leftBracket => "LBracket"
  | .rightBracket => "RBracket"
  | .comma => "Comma"
  | .colon => "Colon"
  | .dot => "Dot"
  | .semicolon => "Semicolon"
  | .equals => "Equals"
  | .plus => "Plus"
  | .minus => "Minus"
  | .star => "Star"
  | .slash => "Slash"
  | .percent => "Percent"
  | .equalEqual => "EqEq"
  | .notEqual => "NotEq"
  | .less => "Lt"
  | .greater => "Gt"
  | .lessEqual => "LtEq"
  | .greaterEqual => "GtEq"
  | .andAnd => "AndAnd"
  | .orOr => "OrOr"
  | .endOfInput => "Eof"

/-- The kind with a given short name. -/
def ofName? (s : String) : Option Kind := all.find? (·.name == s)

/-- The phrase that names the kind in an error message. -/
def phrase : Kind → String
  | .number => "number"
  | .identifier => "identifier"
  | .string => "string"
  | .letKeyword => "variable declaration keyword"
  | .constKeyword => "constant declaration keyword"
  | .functionKeyword => "function keyword"
  | .ifKeyword => "if keyword"
  | .elseKeyword => "else keyword"
  | .whileKeyword => "while keyword"
  | .importKeyword => "import keyword"
  | .leftParen => "`(`"
  | .rightParen => "`)`"
  | .leftBrace => "`\x7b`"
  | .rightBrace => "`\x7d`"
  | .leftBracket => "`[`"
  | .rightBracket => "`]`"
  | .comma => "`,`"
  | .colon => "`:`"
  | .dot => "`.`"
  | .semicolon => "`;`"
  | .equals => "`=`"
  | .plus => "`+`"
  | .minus => "`-`"
  | .star => "`*`"
  | .slash => "`/`"
  | .percent => "`%`"
  | .equalEqual => "`==`"
  | .notEqual => "`!=`"
  | .less => "`<`"
  | .greater => "`>`"
  | .lessEqual => "`<=`"
  | .greaterEqual => "`>=`"
  | .andAnd => "`&&`"
  | .orOr => "`||`"
  | .endOfInput => "end of input"

/-- Whether the kind is one that a dialect spells as a word. -/
def isKeyword : Kind → Bool
  | .letKeyword | .constKeyword | .functionKeyword | .ifKeyword | .elseKeyword
  | .whileKeyword | .importKeyword => true
  | _ => false

end Kind

/-- A classified piece of source text. The text of a string token is what stands between its
quotes; every other token's text is the piece itself. -/
structure Token where
  kind : Kind
  text : String
  span : Span
deriving DecidableEq, Inhabited

namespace Token

/-- The token that marks the end of a source of the given length. -/
def endOfInput (offset : Nat) : Token := ⟨.endOfInput, "", .point offset⟩

/-- How an error message refers to a token of the given kind and text. -/
def describe (kind : Kind) (text : String) : String :=
  match kind with
  | .identifier | .number => s!"{kind.phrase} `{text}`"
  | .string => s!"string \"{text}\""
  | kind => if kind.isKeyword then s!"keyword `{text}`" else kind.phrase

end Token

end DialectScript
