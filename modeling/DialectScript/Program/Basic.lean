/-!
# Programs

The syntax tree: a program is a list of statements. Every declaration says whether its name may
be assigned again, and a member access says which of its two forms it was written in.
-/

namespace DialectScript

/-- The binary operators. -/
inductive Operator where
  | add
  | subtract
  | multiply
  | divide
  | remainder
  | equal
  | notEqual
  | less
  | greater
  | lessEqual
  | greaterEqual
  | and
  | or
deriving DecidableEq, Inhabited

namespace Operator

def all : List Operator :=
  [.add, .subtract, .multiply, .divide, .remainder, .equal, .notEqual, .less, .greater,
    .lessEqual, .greaterEqual, .and, .or]

/-- The operator as it is written. -/
def symbol : Operator → String
  | .add => "+"
  | .subtract => "-"
  | .multiply => "*"
  | .divide => "/"
  | .remainder => "%"
  | .equal => "=="
  | .notEqual => "!="
  | .less => "<"
  | .greater => ">"
  | .lessEqual => "<="
  | .greaterEqual => ">="
  | .and => "&&"
  | .or => "||"

/-- The operator written with a given symbol. -/
def ofSymbol? (s : String) : Option Operator := all.find? (·.symbol == s)

end Operator

/-- Whether a name may be assigned again. -/
inductive Mutability where
  | mutable
  | constant
deriving DecidableEq, Inhabited

/-- The two forms of member access: `object.name` and `array[index]`. -/
inductive Access where
  | dot
  | bracket
deriving DecidableEq, Inhabited

/-- An entry of an object literal: `key: value`, or `key` alone for the variable of that
name. -/
inductive Property (α : Type) where
  | shorthand (key : String)
  | pair (key : String) (value : α)

/-- An expression. -/
inductive Expr where
  | identifier (name : String)
  | number (value : Float)
  | string (text : String)
  | binary (operator : Operator) (left right : Expr)
  | assign (target value : Expr)
  | object (properties : List (Property Expr))
  | array (elements : List Expr)
  | member (object property : Expr) (access : Access)
  | call (callee : Expr) (arguments : List Expr)
deriving Inhabited

/-- What an error message calls an expression. -/
def Expr.describe : Expr → String
  | .identifier _ => "variable"
  | .number _ => "number literal"
  | .string _ => "string literal"
  | .binary .. => "binary expression"
  | .assign .. => "assignment"
  | .object _ => "object literal"
  | .array _ => "array literal"
  | .member .. => "member access"
  | .call .. => "call"

/-- A statement. -/
inductive Stmt where
  | declare (mutability : Mutability) (name : String) (init : Option Expr)
  | function (name : String) (params : List String) (body : List Stmt)
  | branch (condition : Expr) (thenBody : List Stmt) (elseBody : Option (List Stmt))
  | loop (condition : Expr) (body : List Stmt)
  /-- An import is kept in the tree and never resolved. -/
  | importPath (path : String)
  | expression (value : Expr)
deriving Inhabited

/-- A program is the list of its top-level statements. -/
abbrev Program := List Stmt

end DialectScript
