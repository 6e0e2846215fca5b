import DialectScript.Run.State
import DialectScript.Value.Display

/-!
# Built-in functions

Printing, negation, conversion to text, and the array operations. Every scope that is prepared
by `Heap.install` holds them as constants, the array operations as properties of one object.
-/

namespace DialectScript

namespace Builtin

/-- The array that an array operation is given first. -/
def arrayArgument (b : Builtin) : List Value → Run ArrayId
  | .array id :: _ => pure id
  | v :: _ => Run.fault (.invalidArgument b (.noArray (some v.type)))
  | [] => Run.fault (.invalidArgument b (.noArray none))

/-- The length of an array as a value. -/
def lengthOf (id : ArrayId) : Run Value :=
  Run.fromHeap fun h => .number (.ofNat (h.array id).size)

/-- Call a built-in function. -/
def call (b : Builtin) (args : List Value) : Run Value := do
  match b with
  | .print =>
    let line ← Run.fromHeap fun h => String.join (args.map h.display)
    Run.printLine line
    return .null
  | .not =>
    match args with
    | [.boolean x] => return .boolean (!x)
    | [v] => Run.fault (.invalidArgument .not (.notBoolean v.type))
    | _ => Run.fault (.invalidArgument .not (.count 1 args.length))
  | .str =>
    match args with
    | [v] =>
      let text ← Run.fromHeap fun h => h.display v
      return .string text
    | _ => Run.fault (.invalidArgument .str (.count 1 args.length))
  | .length =>
    let id ← arrayArgument .length args
    lengthOf id
  | .push =>
    let id ← arrayArgument .push args
    Run.change fun h => h.modifyArray id (· ++ args.tail)
    lengthOf id
  | .pop =>
    let id ← arrayArgument .pop args
    let last ← Run.fromHeap fun h => (h.array id).back?
    Run.change fun h => h.modifyArray id (·.pop)
    return last.getD .null
  | .shift =>
    let id ← arrayArgument .shift args
    let first ← Run.fromHeap fun h => (h.array id)[0]?
    Run.change fun h => h.modifyArray id fun xs => xs.extract 1 xs.size
    return first.getD .null
  | .unshift =>
    let id ← arrayArgument .unshift args
    Run.change fun h => h.modifyArray id (args.tail.toArray ++ ·)
    lengthOf id

/-- The array operations by the names of their properties. -/
def arrayOperations : Table Value :=
  [("length", length), ("push", push), ("pop", pop), ("shift", shift), ("unshift", unshift)].foldl
    (fun t (key, b) => t.insert key (.builtin b)) .empty

end Builtin

namespace Heap

/-- Bind a constant in a scope unless the scope binds the name already. -/
def provide (h : Heap) (id : ScopeId) (name : String) (v : Value) : Heap :=
  match h.declare id name ⟨v, .constant⟩ with
  | .ok h => h
  | .error _ => h

/-- Bind the built-in constants and functions in a scope. -/
def install (h : Heap) (id : ScopeId) : Heap :=
  let (operations, h) := h.newObject Builtin.arrayOperations
  let globals : List (String × Value) :=
    [("null", .null), ("true", .boolean true), ("false", .boolean false),
      ("print", .builtin .print), ("not", .builtin .not), ("str", .builtin .str),
      ("Array", .object operations)]
  globals.foldl (fun h (name, v) => h.provide id name v) h

/-- A new scope that stands alone and holds the built-ins. -/
def global (h : Heap) : ScopeId × Heap :=
  let (id, h) := h.root
  (id, h.install id)

end Heap

end DialectScript
