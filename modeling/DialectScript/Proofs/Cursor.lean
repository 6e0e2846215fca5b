import DialectScript.Proofs.FirstError

/-!
# A cursor over the tokens

A `Cursor` stands at a token of a list whose last token is an end marker. It goes on to the next
token unless it stands at the last one, so an end marker that comes before does not stop it. A
`Walk` reads a phrase with a cursor, which stays where it is when the walk halts.

The walks follow the grammar of the readers, production by production. A reader is given the tokens
up to the first end marker only; a walk has the whole list before it and nothing but the kinds of
the tokens to keep it from going on.
-/

namespace DialectScript

/-! ## Cursors -/

/-- A position in a list of tokens, and the positions that were held before. -/
structure Cursor where
  tokens : List Token
  pos : Nat
  past : List Nat
  ends : ∃ t ∈ tokens.getLast?, t.kind = .endOfInput
  inside : pos < tokens.length
  past_le : ∀ i ∈ past, i ≤ pos

namespace Cursor

/-- The token at the position. -/
def current (c : Cursor) : Token := c.tokens.get ⟨c.pos, c.inside⟩

/-- The cursor at the next token, or where it is if there is none. -/
def advance (c : Cursor) : Cursor :=
  if h : c.pos + 1 < c.tokens.length then
    { c with
      pos := c.pos + 1
      past := c.pos :: c.past
      inside := h
      past_le := by
        simp only [List.mem_cons, forall_eq_or_imp]
        exact ⟨by omega, fun i hi => Nat.le_succ_of_le (c.past_le i hi)⟩ }
  else c

/-- Every position that was held so far. -/
def positions (c : Cursor) : List Nat := c.pos :: c.past

end Cursor

/-- The last of the marked tokens is an end marker. -/
theorem Token.marked_ends (tokens : List Token) :
    ∃ t ∈ (marked tokens).getLast?, t.kind = .endOfInput := by
  unfold marked
  split
  · exact ⟨_, rfl, rfl⟩
  · next t hlast =>
    split
    · next hk => exact ⟨t, hlast, hk⟩
    · exact ⟨_, List.getLast?_concat, rfl⟩

/-- The cursor at the first token. An end marker is placed behind the last one if it is none. -/
def Cursor.ofTokens (tokens : List Token) : Cursor where
  tokens := Token.marked tokens
  pos := 0
  past := []
  ends := Token.marked_ends tokens
  inside := by
    obtain ⟨t, hlast, -⟩ := Token.marked_ends tokens
    exact List.length_pos_of_mem (List.mem_of_getLast? hlast)
  past_le := by simp

/-! ## Walks -/

/-- Why a walk halts. -/
inductive Halt where
  | failed (error : SyntaxError)
  | exhausted
deriving DecidableEq

/-- A reading of a phrase with a cursor. -/
abbrev Walk (α : Type) : Type := EStateM Halt Cursor α

namespace Walk

variable {α : Type}

/-- Give up with an error. -/
def fail (error : SyntaxError) : Walk α := throw (.failed error)

/-- Give up because the bound on the depth is reached. -/
def exhausted : Walk α := throw .exhausted

/-- The token at the cursor. -/
def peek : Walk Token := fun c => .ok c.current c

/-- The token at the cursor, which goes on. -/
def take : Walk Token := fun c => .ok c.current c.advance

/-- Go on if the token at the cursor is of the given kind; say whether it was. -/
def accept (kind : Kind) : Walk Bool := fun c =>
  if c.current.kind = kind then .ok true c.advance else .ok false c

/-- Go on from the token at the cursor, which has to be of the given kind. -/
def expect (kind : Kind) : Walk Token := fun c =>
  if c.current.kind = kind then .ok c.current c.advance
  else .error (.failed (.unexpected kind c.current)) c

/-- Go on from an identifier and return its name. -/
def name : Walk String := do
  let token ← expect .identifier
  return token.text

/-- Items with commas between them, up to the closing token: `more` reads those behind a comma. -/
def items (close : Kind) (item : Walk α) (more : Walk (List α)) : Walk (List α) := do
  let token ← peek
  if token.kind = close then return []
  else
    let a ← item
    if ← accept .comma then
      let as ← more
      return a :: as
    else return [a]

/-! ## The grammar

The productions are those of the readers, with the same bounds on the depth. -/

def parameters : Nat → Walk (List String)
  | 0 => exhausted
  | n + 1 => do
    let token ← peek
    if token.kind = .rightParen then return []
    else if token.kind = .identifier then
      let _ ← take
      if ← accept .comma then
        let names ← parameters n
        return token.text :: names
      else return [token.text]
    else fail (.noParameter token)

mutual

def expression : Nat → Walk Expr
  | 0 => exhausted
  | n + 1 => do
    let target ← unassigned n
    if ← accept .equals then
      let value ← expression n
      return .assign target value
    else return target

def unassigned : Nat → Walk Expr
  | 0 => exhausted
  | n + 1 => do
    if ← accept .leftBrace then
      let entries ← properties n
      let _ ← expect .rightBrace
      return .object entries
    else binary n Operator.levels

def properties : Nat → Walk (List (Property Expr))
  | 0 => exhausted
  | n + 1 => items .rightBrace (property n) (properties n)

def property : Nat → Walk (Property Expr)
  | 0 => exhausted
  | n + 1 => do
    let key ← name
    if ← accept .colon then
      let value ← expression n
      return .pair key value
    else return .shorthand key

def binary : Nat → List Operator.Level → Walk Expr
  | 0, _ => exhausted
  | n + 1, [] => suffixed n
  | n + 1, level :: tighter => do
    let left ← binary n tighter
    chain n level tighter left

def chain : Nat → Operator.Level → List Operator.Level → Expr → Walk Expr
  | 0, _, _, _ => exhausted
  | n + 1, level, tighter, left => do
    let token ← peek
    match level token.kind with
    | none => return left
    | some operator =>
      let _ ← take
      let right ← binary n tighter
      chain n level tighter (.binary operator left right)

def suffixed : Nat → Walk Expr
  | 0 => exhausted
  | n + 1 => do
    let base ← primary n
    suffixes n base

def suffixes : Nat → Expr → Walk Expr
  | 0, _ => exhausted
  | n + 1, base => do
    let token ← peek
    match token.kind with
    | .dot =>
      let _ ← take
      let key ← name
      suffixes n (.member base (.identifier key) .dot)
    | .leftBracket =>
      let _ ← take
      let index ← expression n
      let _ ← expect .rightBracket
      suffixes n (.member base index .bracket)
    | .leftParen =>
      let _ ← take
      let arguments ← expressions n .rightParen
      let _ ← expect .rightParen
      suffixes n (.call base arguments)
    | _ => return base

def primary : Nat → Walk Expr
  | 0 => exhausted
  | n + 1 => do
    let token ← peek
    match token.kind with
    | .identifier =>
      let _ ← take
      return .identifier token.text
    | .number =>
      let _ ← take
      match Numeral.value? token.text with
      | some value => return .number value
      | none => fail ⟨.invalidNumber token.text, token.span⟩
    | .string =>
      let _ ← take
      return .string token.text
    | .leftParen =>
      let _ ← take
      let inner ← expression n
      let _ ← expect .rightParen
      return inner
    | .leftBracket =>
      let _ ← take
      let elements ← expressions n .rightBracket
      let _ ← expect .rightBracket
      return .array elements
    | _ => fail (.noExpression token)

def expressions : Nat → Kind → Walk (List Expr)
  | 0, _ => exhausted
  | n + 1, close => items close (expression n) (expressions n close)

end

mutual

def statement : Nat → Walk Stmt
  | 0 => exhausted
  | n + 1 => do
    let result ← bareStatement n
    let _ ← accept .semicolon
    return result

def bareStatement : Nat → Walk Stmt
  | 0 => exhausted
  | n + 1 => do
    let token ← peek
    match token.kind with
    | .letKeyword =>
      let _ ← take
      let declared ← expect .identifier
      if ← accept .equals then
        let init ← expression n
        return .declare .mutable declared.text (some init)
      else return .declare .mutable declared.text none
    | .constKeyword =>
      let _ ← take
      let declared ← expect .identifier
      if ← accept .equals then
        let init ← expression n
        return .declare .constant declared.text (some init)
      else fail ⟨.missingInitializer declared.text, token.span.merge declared.span⟩
    | .functionKeyword =>
      let _ ← take
      let declared ← name
      let _ ← expect .leftParen
      let params ← parameters n
      let _ ← expect .rightParen
      let statements ← block n
      return .function declared params statements
    | .ifKeyword =>
      let _ ← take
      let condition ← expression n
      let thenBody ← body n
      if ← accept .elseKeyword then
        let elseBody ← body n
        return .branch condition thenBody (some elseBody)
      else return .branch condition thenBody none
    | .whileKeyword =>
      let _ ← take
      let condition ← expression n
      let statements ← body n
      return .loop condition statements
    | .importKeyword =>
      let _ ← take
      let path ← expect .string
      return .importPath path.text
    | _ =>
      let value ← expression n
      return .expression value

def body : Nat → Walk (List Stmt)
  | 0 => exhausted
  | n + 1 => do
    let token ← peek
    if token.kind = .leftBrace then block n
    else
      let single ← statement n
      return [single]

def block : Nat → Walk (List Stmt)
  | 0 => exhausted
  | n + 1 => do
    let _ ← expect .leftBrace
    let result ← statements n .rightBrace
    let _ ← expect .rightBrace
    return result

def statements : Nat → Kind → Walk (List Stmt)
  | 0, _ => exhausted
  | n + 1, stop => do
    let token ← peek
    if token.kind = stop ∨ token.kind = .endOfInput then return []
    else
      let first ← statement n
      let others ← statements n stop
      return first :: others

end

/-- Statements up to the end, from the first token on. -/
def program (n : Nat) (tokens : List Token) : EStateM.Result Halt Cursor Program :=
  statements n .endOfInput (Cursor.ofTokens tokens)

/-- The cursor with which a walk ends. -/
def final : EStateM.Result Halt Cursor α → Cursor
  | .ok _ c | .error _ c => c

/-- What a walk ends with, unless its bound is exhausted. -/
def outcome? : EStateM.Result Halt Cursor α → Option (Except SyntaxError α)
  | .ok a _ => some (.ok a)
  | .error (.failed e) _ => some (.error e)
  | .error .exhausted _ => none

end Walk

end DialectScript
