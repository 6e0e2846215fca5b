import DialectScript.Decimal.Style
import DialectScript.Program.Basic
import DialectScript.Value.Basic
import DialectScript.Value.Scope

/-!
# Runtime faults

Why a script stops, and the calls that were active when it did.
-/

namespace DialectScript

/-- What is wrong with the arguments of a built-in function. -/
inductive ArgumentProblem where
  | count (expected found : Nat)
  | notBoolean (found : ValueType)
  | noArray (found : Option ValueType)
deriving DecidableEq

/-- The wording of an argument problem. -/
def ArgumentProblem.message : ArgumentProblem → String
  | .count expected found => s!"expected {expected} argument(s), found {found}"
  | .notBoolean found => s!"expected a boolean, found {found.name}"
  | .noArray none => "expected an array as the first argument"
  | .noArray (some found) => s!"expected an array as the first argument, found {found.name}"

/-- Why a script stops. -/
inductive FaultCause where
  | undeclaredVariable (name : String)
  | redeclaredVariable (name : String)
  | assignToConstant (name : String)
  | nonBooleanCondition (found : ValueType)
  | typeMismatch (operator : Operator) (left right : ValueType)
  | invalidMemberAccess (access : Access) (found : ValueType)
  | propertyNotFound (name : String)
  | indexOutOfBounds (index : Float) (length : Nat)
  | invalidIndex (found : ValueType)
  | notCallable (found : ValueType)
  | invalidAssignmentTarget (found : String)
  | invalidArgument (function : Builtin) (problem : ArgumentProblem)
  | stackOverflow (depth : Nat)
deriving DecidableEq

namespace FaultCause

/-- The cause that a failed scope operation on a name gives. -/
def ofScopeError (name : String) : ScopeError → FaultCause
  | .undeclared => .undeclaredVariable name
  | .redeclared => .redeclaredVariable name
  | .constant => .assignToConstant name

/-- The wording of a cause. -/
def message : FaultCause → String
  | .undeclaredVariable name => s!"undeclared variable `{name}`"
  | .redeclaredVariable name => s!"variable `{name}` is already declared in this scope"
  | .assignToConstant name => s!"cannot assign to constant `{name}`"
  | .nonBooleanCondition found => s!"condition must be a boolean, found {found.name}"
  | .typeMismatch operator left right =>
    s!"operator `{operator.symbol}` cannot be applied to {left.name} and {right.name}"
  | .invalidMemberAccess .dot found =>
    s!"member access with `.` requires an object, found {found.name}"
  | .invalidMemberAccess .bracket found =>
    s!"member access with `[ ]` requires an array, found {found.name}"
  | .propertyNotFound name => s!"property `{name}` not found"
  | .indexOutOfBounds index length =>
    s!"index {NumberStyle.message.write index} is out of bounds for an array of length {length}"
  | .invalidIndex found => s!"array index must be a number, found {found.name}"
  | .notCallable found => s!"{found.name} is not callable"
  | .invalidAssignmentTarget found =>
    s!"invalid assignment target: expected a variable or member, found {found}"
  | .invalidArgument function problem => s!"{function.name}: {problem.message}"
  | .stackOverflow depth => s!"maximum call depth of {depth} exceeded"

end FaultCause

/-- The names of active calls, the most recent first. -/
abbrev Backtrace := List String

/-- The calls by number, one a line; nothing at all if there are none. -/
def Backtrace.text (calls : Backtrace) : String :=
  if calls.isEmpty then ""
  else
    "call stack:\n" ++
      String.join (calls.zipIdx.map fun (name, i) => "  " ++ toString i ++ ": " ++ name ++ "\n")

/-- A cause and, once the fault has left a call, the calls that were active. -/
structure Fault where
  cause : FaultCause
  backtrace : Option Backtrace
deriving DecidableEq

/-- A fault that has not left a call yet. -/
def Fault.ofCause (cause : FaultCause) : Fault := ⟨cause, none⟩

end DialectScript
