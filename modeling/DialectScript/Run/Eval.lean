import DialectScript.Run.Builtin
import DialectScript.Run.Operation

/-!
# Evaluation

Statements and expressions are evaluated in a scope. The bodies of branches and loops run in the
scope of the statement; only a call opens a new scope, inside the one its function was declared
in. Operands, arguments and entries are evaluated from left to right, both operands of every
operator included.

Every function takes fuel, one unit for each step inwards, and stops when it is used up.

What stands behind a dot is a name in every source, but not in every tree. The evaluators are
defined over what they fall back on for the other trees (`Fallback`); by themselves they fall back
on a fault.
-/

namespace DialectScript

namespace Value

/-- The place in an array of a given length that an index denotes: a whole number below the
length. -/
def slot (index : Value) (length : Nat) : Except Fault Nat :=
  match index with
  | .number x =>
    match (Binary.ofFloat x).natural? with
    | some i => if i < length then .ok i else .error (.ofCause (.indexOutOfBounds x length))
    | none => .error (.ofCause (.indexOutOfBounds x length))
  | v => .error (.ofCause (.invalidIndex v.type))

end Value

/-- The name of a property written behind a dot. -/
def Expr.propertyName : Expr → Except Fault String
  | .identifier name => .ok name
  | e => .error (.ofCause (.propertyNotFound e.describe))

/-- What to do about a property behind a dot that is no name. -/
class Fallback where
  propertyKey : Expr → Run String

/-- By themselves, the evaluators fall back on a fault. -/
instance Fallback.standard : Fallback := ⟨fun e => Run.fault (.propertyNotFound e.describe)⟩

/-- Find the name of a property behind a dot. -/
def Expr.propertyKey [Fallback] : Expr → Run String
  | .identifier name => pure name
  | e => Fallback.propertyKey e

theorem Expr.propertyKey_standard (e : Expr) : e.propertyKey = Run.ofExcept e.propertyName := by
  cases e <;> rfl

namespace Closure

/-- The bindings of a call: each parameter a constant that holds its argument, or null where the
arguments have run out. Arguments without a parameter are dropped. -/
def bind : List String → List Value → Table Binding → Except Fault (Table Binding)
  | [], _, bindings => .ok bindings
  | param :: params, args, bindings =>
    if bindings.contains param then .error (.ofCause (.redeclaredVariable param))
    else bind params args.tail (bindings.insert param ⟨args.headD .null, .constant⟩)

end Closure

namespace Run

/-- The value of a property. -/
def readProperty (id : ObjectId) (key : String) : Run Value := do
  match ← fromHeap fun h => (h.object id).get? key with
  | some v => return v
  | none => fault (.propertyNotFound key)

/-- The place in an array that an index denotes now. -/
def slotOf (id : ArrayId) (index : Value) : Run Nat := do
  let length ← fromHeap fun h => (h.array id).size
  ofExcept (index.slot length)

/-- The element of an array at an index. -/
def readElement (id : ArrayId) (index : Value) : Run Value := do
  let i ← slotOf id index
  fromHeap fun h => (h.array id).getD i .null

end Run

open Run

mutual

/-- Evaluate an expression. -/
def Expr.eval [Fallback] : (fuel : Nat) → ScopeId → Expr → Run Value
  | 0, _, _ => throw .outOfFuel
  | n + 1, scope, e =>
    match e with
    | .identifier name => readVariable scope name
    | .number x => return .number x
    | .string text => return .string text
    | .binary operator left right => do
      let l ← left.eval n scope
      let r ← right.eval n scope
      ofExcept (operator.apply l r)
    | .assign target value => target.evalAssign n scope value
    | .object properties => do
      let entries ← evalProperties n scope properties .empty
      let id ← make (·.newObject entries)
      return .object id
    | .array elements => do
      let vs ← evalList n scope elements
      let id ← make (·.newArray vs.toArray)
      return .array id
    | .member object property access => do
      let container ← object.eval n scope
      match container, access with
      | .object id, .dot =>
        let key ← property.propertyKey
        readProperty id key
      | .array id, .bracket =>
        let index ← property.eval n scope
        readElement id index
      | v, access => fault (.invalidMemberAccess access v.type)
    | .call callee arguments => do
      let f ← callee.eval n scope
      let vs ← evalList n scope arguments
      f.call n vs

/-- Evaluate the assignment of an expression to a target. A member has to exist before the
expression is evaluated, and again afterwards. -/
def Expr.evalAssign [Fallback] : (fuel : Nat) → ScopeId → (target value : Expr) → Run Value
  | 0, _, _, _ => throw .outOfFuel
  | n + 1, scope, target, value =>
    match target with
    | .identifier name => do
      let v ← value.eval n scope
      onScope name (·.assign scope name v)
      return v
    | .member object property access => do
      let container ← object.eval n scope
      match container, access with
      | .object id, .dot =>
        let key ← property.propertyKey
        let _ ← readProperty id key
        let v ← value.eval n scope
        let _ ← readProperty id key
        change (·.modifyObject id (·.insert key v))
        return v
      | .array id, .bracket =>
        let index ← property.eval n scope
        let _ ← slotOf id index
        let v ← value.eval n scope
        let i ← slotOf id index
        change (·.modifyArray id (·.setIfInBounds i v))
        return v
      | v, access => fault (.invalidMemberAccess access v.type)
    | e => fault (.invalidAssignmentTarget e.describe)

/-- Evaluate the entries of an object literal into a table. -/
def evalProperties [Fallback] : (fuel : Nat) → ScopeId → List (Property Expr) → Table Value →
    Run (Table Value)
  | 0, _, _, _ => throw .outOfFuel
  | n + 1, scope, properties, entries =>
    match properties with
    | [] => return entries
    | .shorthand key :: rest => do
      let v ← readVariable scope key
      evalProperties n scope rest (entries.insert key v)
    | .pair key value :: rest => do
      let v ← value.eval n scope
      evalProperties n scope rest (entries.insert key v)

/-- Evaluate expressions in order. -/
def evalList [Fallback] : (fuel : Nat) → ScopeId → List Expr → Run (List Value)
  | 0, _, _ => throw .outOfFuel
  | n + 1, scope, exprs =>
    match exprs with
    | [] => return []
    | e :: rest => do
      let v ← e.eval n scope
      let vs ← evalList n scope rest
      return v :: vs

/-- Call a value with arguments. -/
def Value.call [Fallback] : (fuel : Nat) → (callee : Value) → List Value → Run Value
  | 0, _, _ => throw .outOfFuel
  | n + 1, callee, args =>
    match callee with
    | .builtin b => b.call args
    | .function id => do
      let c ← fromHeap (·.closure id)
      inCall c.name do
        let bindings ← ofExcept (Closure.bind c.params args .empty)
        let scope ← make (·.newScope ⟨bindings, some c.scope⟩)
        evalBody n scope c.body .null
    | v => fault (.notCallable v.type)

/-- Evaluate a statement; its value is that of what it evaluated last. -/
def Stmt.eval [Fallback] : (fuel : Nat) → ScopeId → Stmt → Run Value
  | 0, _, _ => throw .outOfFuel
  | n + 1, scope, s =>
    match s with
    | .declare mutability name none => do
      onScope name (·.declare scope name ⟨.null, mutability⟩)
      return .null
    | .declare mutability name (some init) => do
      let v ← init.eval n scope
      onScope name (·.declare scope name ⟨v, mutability⟩)
      return v
    | .function name params body => do
      let id ← make (·.newClosure ⟨name, params, body, scope⟩)
      onScope name (·.declare scope name ⟨.function id, .constant⟩)
      return .function id
    | .branch condition thenBody elseBody => do
      match ← condition.eval n scope with
      | .boolean true => evalBody n scope thenBody .null
      | .boolean false => evalBody n scope (elseBody.getD []) .null
      | v => fault (.nonBooleanCondition v.type)
    | .loop condition body => evalLoop n scope condition body .null
    | .importPath _ => return .null
    | .expression e => e.eval n scope

/-- Evaluate a loop whose last round had the given value. -/
def evalLoop [Fallback] : (fuel : Nat) → ScopeId → Expr → List Stmt → Value → Run Value
  | 0, _, _, _, _ => throw .outOfFuel
  | n + 1, scope, condition, body, last => do
    match ← condition.eval n scope with
    | .boolean true =>
      let v ← evalBody n scope body .null
      evalLoop n scope condition body v
    | .boolean false => return last
    | v => fault (.nonBooleanCondition v.type)

/-- Evaluate statements in order, after one that had the given value. -/
def evalBody [Fallback] : (fuel : Nat) → ScopeId → List Stmt → Value → Run Value
  | 0, _, _, _ => throw .outOfFuel
  | n + 1, scope, body, last =>
    match body with
    | [] => return last
    | s :: rest => do
      let v ← s.eval n scope
      evalBody n scope rest v

end

/-- Run a program in a scope, with something to fall back on: its value is that of its last
statement, or null. -/
def Program.runWith (fallback : Fallback) (fuel : Nat) (scope : ScopeId) (program : Program) :
    Run Value :=
  @evalBody fallback fuel scope program .null

/-- Run a program in a scope. -/
def Program.run (fuel : Nat) (scope : ScopeId) (program : Program) : Run Value :=
  evalBody fuel scope program .null

end DialectScript
