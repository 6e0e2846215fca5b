import DialectScript.Run.CallStack
import DialectScript.Run.Output
import DialectScript.Value.Scope

/-!
# Running scripts

A running script has a heap, an output and a call stack. A `Run` changes them and ends with a
value, with a fault, or by using up its fuel; the state reached is kept in every case.
-/

namespace DialectScript

/-- The state of a running script. -/
structure State where
  heap : Heap
  output : Output
  calls : CallStack
deriving Inhabited

/-- Why a run ends without a value. -/
inductive Stop where
  | fault (f : Fault)
  | outOfFuel
deriving DecidableEq

/-- A computation on the state of a script. -/
abbrev Run := EStateM Stop State

namespace Run

/-- Stop with a fault. -/
@[inline] def fault {α : Type} (cause : FaultCause) : Run α := throw (.fault (.ofCause cause))

/-- Go on with a result, or stop with its fault. -/
@[inline] def ofExcept {α : Type} : Except Fault α → Run α
  | .ok a => pure a
  | .error f => throw (.fault f)

/-- Look something up in the heap. -/
@[inline] def fromHeap {α : Type} (f : Heap → α) : Run α := fun s => .ok (f s.heap) s

/-- Change the heap. -/
@[inline] def change (f : Heap → Heap) : Run Unit := fun s => .ok () { s with heap := f s.heap }

/-- Make a cell in the heap. -/
@[inline] def make (f : Heap → Nat × Heap) : Run Nat := fun s =>
  match f s.heap with
  | (id, heap) => .ok id { s with heap }

/-- Change the heap by an operation on a name that may fail. -/
@[inline] def onScope (name : String) (f : Heap → Except ScopeError Heap) : Run Unit := fun s =>
  match f s.heap with
  | .ok heap => .ok () { s with heap }
  | .error e => .error (.fault (.ofCause (.ofScopeError name e))) s

/-- Print a line. -/
@[inline] def printLine (line : String) : Run Unit := fun s =>
  .ok () { s with output := s.output.printLine line }

/-- The value of a name. -/
def readVariable (scope : ScopeId) (name : String) : Run Value := fun s =>
  match s.heap.read scope name with
  | .ok v => .ok v s
  | .error e => .error (.fault (.ofCause (.ofScopeError name e))) s

/-- Run a call: enter it, run its body and leave it. A fault that leaves the call is given the
active calls. -/
@[inline] def inCall {α : Type} (name : String) (body : Run α) : Run α := fun s =>
  match s.calls.push name with
  | .error f => .error (.fault f) s
  | .ok calls =>
    match body { s with calls } with
    | .ok a s => .ok a { s with calls := s.calls.pop }
    | .error (.fault f) s => .error (.fault (s.calls.attach f)) { s with calls := s.calls.pop }
    | .error .outOfFuel s => .error .outOfFuel { s with calls := s.calls.pop }

end Run

end DialectScript
