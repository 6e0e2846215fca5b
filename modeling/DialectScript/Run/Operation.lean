import DialectScript.Decimal.Binary
import DialectScript.Run.Fault

/-!
# Binary operations

Arithmetic and comparison work on numbers only; the logical operators on truth values, with a
number counting as true unless it is zero or no number. Both operands are values already, so no
operator skips one.
-/

namespace DialectScript

namespace Value

/-- The truth value of an operand of a logical operator. -/
def truth? : Value → Option Bool
  | .boolean b => some b
  | .number x => some (x != 0.0 && !x.isNaN)
  | _ => none

end Value

namespace Operator

/-- The result of an operator on two numbers; logical operators have none here. -/
def onNumbers (x y : Float) : Operator → Option Value
  | .add => some (.number (x + y))
  | .subtract => some (.number (x - y))
  | .multiply => some (.number (x * y))
  | .divide => some (.number (x / y))
  | .remainder => some (.number (Binary.remainder x y))
  | .equal => some (.boolean (x == y))
  | .notEqual => some (.boolean (x != y))
  | .less => some (.boolean (x < y))
  | .greater => some (.boolean (y < x))
  | .lessEqual => some (.boolean (x ≤ y))
  | .greaterEqual => some (.boolean (y ≤ x))
  | .and => none
  | .or => none

/-- The result of an operator on two operands; logical operators have one only here. -/
def onTruths (a b : Bool) : Operator → Option Value
  | .and => some (.boolean (a && b))
  | .or => some (.boolean (a || b))
  | _ => none

/-- The result of an operator, if the operands suit it. -/
def result? (operator : Operator) (left right : Value) : Option Value :=
  match operator with
  | .and | .or =>
    match left.truth?, right.truth? with
    | some a, some b => operator.onTruths a b
    | _, _ => none
  | _ =>
    match left, right with
    | .number x, .number y => operator.onNumbers x y
    | _, _ => none

/-- The result of an operator, or the fault that its operands do not suit it. -/
def apply (operator : Operator) (left right : Value) : Except Fault Value :=
  match operator.result? left right with
  | some v => .ok v
  | none => .error (.ofCause (.typeMismatch operator left.type right.type))

end Operator

end DialectScript
