import DialectScript.Program.Error

/-!
# Readers

A `Reader` takes a phrase off the head of a token list. It looks at one token at a time: the
next one, or the end marker when no token is left. It ends with a value and the tokens behind
it, with a syntax error, or, for recursive phrases with a bound on their depth, by exhausting
the bound.
-/

namespace DialectScript

/-- How reading a phrase ends. -/
inductive Reading (α : Type) where
  | done (value : α) (rest : List Token)
  | failed (error : SyntaxError)
  | exhausted

/-- A reader of phrases, given the end marker and the tokens ahead. -/
def Reader (α : Type) : Type := (marker : Token) → List Token → Reading α

namespace Reader

variable {α β : Type}

/-- Read nothing. -/
@[inline] protected def pure (a : α) : Reader α := fun _ tokens => .done a tokens

/-- Read one phrase, then another that may depend on it. -/
@[inline] protected def bind (p : Reader α) (f : α → Reader β) : Reader β := fun marker tokens =>
  match p marker tokens with
  | .done a rest => f a marker rest
  | .failed error => .failed error
  | .exhausted => .exhausted

instance : Monad Reader where
  pure := Reader.pure
  bind := Reader.bind

/-- Give up with an error. -/
def fail (error : SyntaxError) : Reader α := fun _ _ => .failed error

/-- Give up because the bound on the depth is reached. -/
def exhausted : Reader α := fun _ _ => .exhausted

/-- The token that stands next: the first one, or the end marker. -/
def next (marker : Token) : List Token → Token
  | [] => marker
  | token :: _ => token

/-- The next token, which stays where it is. -/
def peek : Reader Token := fun marker tokens => .done (next marker tokens) tokens

/-- The next token, which is taken. -/
def take : Reader Token := fun marker tokens => .done (next marker tokens) tokens.tail

/-- Take the next token if it is of the given kind; say whether it was. -/
def accept (kind : Kind) : Reader Bool := fun marker tokens =>
  if (next marker tokens).kind = kind then .done true tokens.tail else .done false tokens

/-- Take the next token, which has to be of the given kind. -/
def expect (kind : Kind) : Reader Token := fun marker tokens =>
  if (next marker tokens).kind = kind then .done (next marker tokens) tokens.tail
  else .failed (.unexpected kind (next marker tokens))

/-- Take an identifier and return its name. -/
def name : Reader String := do
  let token ← expect .identifier
  return token.text

end Reader

end DialectScript
