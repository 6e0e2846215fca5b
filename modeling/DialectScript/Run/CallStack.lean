import DialectScript.Run.Fault

/-!
# The call stack

The names of the active calls and a limit on their number. A call beyond the limit is refused.
A fault is given the active calls once: the backtrace it got where it arose is kept.
-/

namespace DialectScript

/-- The active calls, the most recent first, and how many there may be. -/
structure CallStack where
  frames : List String
  limit : Option Nat
deriving DecidableEq, Inhabited

namespace CallStack

/-- No call is active. -/
def empty (limit : Option Nat) : CallStack := ⟨[], limit⟩

/-- The number of active calls. -/
def depth (s : CallStack) : Nat := s.frames.length

/-- Enter a call, if the limit allows one more. -/
def push (s : CallStack) (name : String) : Except Fault CallStack :=
  match s.limit with
  | none => .ok { s with frames := name :: s.frames }
  | some limit =>
    if limit ≤ s.depth then .error (.ofCause (.stackOverflow limit))
    else .ok { s with frames := name :: s.frames }

/-- Leave the most recent call. -/
def pop (s : CallStack) : CallStack := { s with frames := s.frames.tail }

/-- The active calls, as a fault records them. -/
def capture (s : CallStack) : Backtrace := s.frames

/-- Record the active calls in a fault, unless there are none or it has a backtrace already. -/
def attach (s : CallStack) (f : Fault) : Fault :=
  if s.frames.isEmpty || f.backtrace.isSome then f else { f with backtrace := some s.capture }

end CallStack

end DialectScript
