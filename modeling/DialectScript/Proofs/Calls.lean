import DialectScript.Proofs.Composed
import DialectScript.Session

/-!
# The call stack during a run

**Theorem (`Evaluation.calls_balanced`).** Whichever way an evaluation ends, the call stack is what
it was before, and at no moment of the evaluation are more calls active than the limit allows, if
no more were active before.

The moments of a run (`Run.Passes`) are the states at the start and at the end of every run that
it is composed of, wherever that run begins. Two facts carry the proof: leaving a call undoes
entering it (`CallStack.pop_push`), and what is entered stands on top of what was there, within the
limit (`CallStack.Extends`).
-/

namespace DialectScript

/-! ## Entering and leaving -/

namespace CallStack

variable {s t u : CallStack} {name : String}

/-- A call that is entered stands on top, and the limit allowed one more. -/
theorem push_eq_ok (h : s.push name = .ok t) :
    t = { s with frames := name :: s.frames } ∧ ∀ max, s.limit = some max → s.depth < max := by
  rw [push] at h
  cases hl : s.limit with
  | none =>
    rw [hl] at h
    cases h
    exact ⟨rfl, nofun⟩
  | some limit =>
    rw [hl] at h
    dsimp only at h
    by_cases hfull : limit ≤ s.depth
    · rw [if_pos hfull] at h
      cases h
    · rw [if_neg hfull] at h
      cases h
      refine ⟨rfl, fun max hmax => ?_⟩
      cases hmax
      exact Nat.lt_of_not_le hfull

/-- A call is refused only at the limit, and the fault names the limit. -/
theorem push_eq_error {f : Fault} (h : s.push name = .error f) :
    ∃ max, s.limit = some max ∧ max ≤ s.depth ∧ f = .ofCause (.stackOverflow max) := by
  rw [push] at h
  cases hl : s.limit with
  | none =>
    rw [hl] at h
    cases h
  | some limit =>
    rw [hl] at h
    dsimp only at h
    by_cases hfull : limit ≤ s.depth
    · rw [if_pos hfull] at h
      cases h
      exact ⟨limit, rfl, hfull, rfl⟩
    · rw [if_neg hfull] at h
      cases h

theorem attach_cause (s : CallStack) (f : Fault) : (s.attach f).cause = f.cause := by
  unfold attach
  split <;> rfl

theorem pop_push (h : s.push name = .ok t) : t.pop = s := by
  rw [(push_eq_ok h).1]
  rfl

/-- The second call stack has the calls of the first below its own, and if the limit held, it
still does. -/
structure Extends (s t : CallStack) : Prop where
  limit : t.limit = s.limit
  frames : ∃ entered, t.frames = entered ++ s.frames
  bounded : ∀ max, s.limit = some max → s.depth ≤ max → t.depth ≤ max

theorem Extends.refl (s : CallStack) : Extends s s := ⟨rfl, ⟨[], rfl⟩, fun _ _ h => h⟩

theorem Extends.trans (h : Extends s t) (h' : Extends t u) : Extends s u where
  limit := h'.limit.trans h.limit
  frames := by
    obtain ⟨entered, hs⟩ := h.frames
    obtain ⟨entered', ht⟩ := h'.frames
    exact ⟨entered' ++ entered, by rw [ht, hs, List.append_assoc]⟩
  bounded max hmax hs := h'.bounded max (h.limit.trans hmax) (h.bounded max hmax hs)

theorem extends_push (h : s.push name = .ok t) : Extends s t := by
  obtain ⟨rfl, hlimit⟩ := push_eq_ok h
  exact ⟨rfl, ⟨[name], rfl⟩, fun max hmax _ => hlimit max hmax⟩

end CallStack

/-! ## The end of a run -/

namespace Run

variable {α β : Type} {x : Run α} {f : α → Run β} {s t : State}

/-- The state in which a run ends, with a value or without. -/
def final (x : Run α) (s : State) : State :=
  match x s with
  | .ok _ t => t
  | .error _ t => t

theorem final_of_ok {a : α} (h : x s = .ok a t) : x.final s = t := by rw [final, h]

theorem final_of_error {e : Stop} (h : x s = .error e t) : x.final s = t := by rw [final, h]

/-- Reading a variable changes nothing. -/
theorem final_readVariable (scope : ScopeId) (name : String) (s : State) :
    (readVariable scope name).final s = s := by
  unfold final readVariable
  cases s.heap.read scope name <;> rfl

/-- A change that may fail is made, or nothing is changed. -/
theorem final_onScope (name : String) (f : Heap → Except ScopeError Heap) (s : State) :
    (∃ heap, f s.heap = .ok heap ∧ (onScope name f).final s = { s with heap }) ∨
      (onScope name f).final s = s := by
  unfold final onScope
  cases f s.heap with
  | ok heap => exact .inl ⟨heap, rfl, rfl⟩
  | error e => exact .inr rfl

/-- A sequence ends where its first run does, or goes on from there. -/
theorem final_bind (x : Run α) (f : α → Run β) (s : State) :
    (∃ a, x s = .ok a (x.final s) ∧ (x >>= f).final s = (f a).final (x.final s)) ∨
      (x >>= f).final s = x.final s := by
  cases hx : x s with
  | ok a t =>
    rw [final_of_ok hx]
    exact .inl ⟨a, rfl, by simp only [final, bind, EStateM.bind, hx]⟩
  | error e t =>
    rw [final_of_error hx]
    exact .inr (by simp only [final, bind, EStateM.bind, hx])

theorem bind_of_ok {a : α} (h : x s = .ok a t) : (x >>= f) s = f a t := by
  simp only [bind, EStateM.bind, h]

theorem bind_of_error {e : Stop} (h : x s = .error e t) : (x >>= f) s = .error e t := by
  simp only [bind, EStateM.bind, h]

/-- A sequence that ends with a value goes through a value of its first run. -/
theorem bind_eq_ok {b : β} (h : (x >>= f) s = .ok b t) :
    ∃ a u, x s = .ok a u ∧ f a u = .ok b t := by
  cases hx : x s with
  | ok a u => exact ⟨a, u, rfl, by rwa [bind_of_ok hx] at h⟩
  | error e u =>
    rw [bind_of_error hx] at h
    cases h

/-- A call that is not refused ends where its body does, and is left there. -/
theorem final_inCall_of_push {name : String} {calls : CallStack}
    (hpush : s.calls.push name = .ok calls) (body : Run α) :
    (inCall name body).final s =
      { body.final { s with calls } with calls := (body.final { s with calls }).calls.pop } := by
  simp only [final, inCall, hpush]
  cases body { s with calls } with
  | ok a t => rfl
  | error e t => cases e <;> rfl

theorem final_inCall (name : String) (body : Run α) (s : State) :
    (∃ calls, s.calls.push name = .ok calls ∧ (inCall name body).final s =
      { body.final { s with calls } with calls := (body.final { s with calls }).calls.pop }) ∨
    (inCall name body).final s = s := by
  cases hpush : s.calls.push name with
  | error e => exact .inr (by simp only [final, inCall, hpush])
  | ok calls => exact .inl ⟨calls, rfl, final_inCall_of_push hpush body⟩

/-- Whichever way a composed run ends, the call stack is what it was before. -/
theorem Composed.calls_final (h : Composed x) (s : State) : (x.final s).calls = s.calls := by
  induction h generalizing s with
  | value a => rfl
  | stop e => rfl
  | fromHeap f => rfl
  | change f => rfl
  | make f => rfl
  | onScope name f =>
    rcases final_onScope name f s with ⟨heap, -, hfinal⟩ | hfinal <;> rw [hfinal]
  | printLine line => rfl
  | readVariable scope name => rw [final_readVariable]
  | @bind α β x f _ _ ihx ihf =>
    rcases final_bind x f s with ⟨a, -, hfinal⟩ | hfinal
    · rw [hfinal, ihf, ihx]
    · rw [hfinal, ihx]
  | @inCall α name body _ ih =>
    rcases final_inCall name body s with ⟨calls, hpush, hfinal⟩ | hfinal
    · rw [hfinal]
      dsimp only
      rw [ih]
      exact CallStack.pop_push hpush
    · rw [hfinal]

/-! ## The moments of a run -/

/-- The states that a run passes through, given how it is composed: the basic runs take no notice of
the call stack, so nothing is to be seen inside them. -/
inductive Passes : {α : Type} → Run α → State → State → Prop
  | start {α : Type} {x : Run α} (s : State) : Passes x s s
  | finish {α : Type} {x : Run α} (hx : Composed x) (s : State) : Passes x s (x.final s)
  | first {α β : Type} {x : Run α} {f : α → Run β} {s t : State} :
      Passes x s t → Passes (x >>= f) s t
  | second {α β : Type} {x : Run α} {f : α → Run β} {s t u : State} {a : α} (hx : Composed x) :
      x s = .ok a u → Passes (f a) u t → Passes (x >>= f) s t
  /-- What is inside a call is passed with that call active. -/
  | inside {α : Type} {name : String} {body : Run α} {s t : State} {calls : CallStack} :
      s.calls.push name = .ok calls → Passes body { s with calls } t →
      Passes (inCall name body) s t

/-- At every moment of a run, the calls that were active before it still are, below those that it
has entered. -/
theorem Passes.extends (h : Passes x s t) : s.calls.Extends t.calls := by
  induction h with
  | start s => exact .refl _
  | finish hx s =>
    rw [hx.calls_final s]
    exact .refl _
  | first _ ih => exact ih
  | second hx hu _ ih =>
    rw [← hx.calls_final, final_of_ok hu]
    exact ih
  | inside hpush _ ih => exact (CallStack.extends_push hpush).trans ih

end Run

/-! ## Evaluations -/

/-- The evaluations of a statement, of an expression, of a call and of a program. -/
inductive Evaluation (fuel : Nat) : Run Value → Prop
  | statement (scope : ScopeId) (s : Stmt) : Evaluation fuel (s.eval fuel scope)
  | expression (scope : ScopeId) (e : Expr) : Evaluation fuel (e.eval fuel scope)
  | call (callee : Value) (args : List Value) : Evaluation fuel (callee.call fuel args)
  | program (scope : ScopeId) (p : Program) : Evaluation fuel (p.run fuel scope)

/-- The evaluations that are made in a scope. A call may be made from any. -/
inductive EvaluationIn (fuel : Nat) (scope : ScopeId) : Run Value → Prop
  | statement (s : Stmt) : EvaluationIn fuel scope (s.eval fuel scope)
  | expression (e : Expr) : EvaluationIn fuel scope (e.eval fuel scope)
  | call (callee : Value) (args : List Value) : EvaluationIn fuel scope (callee.call fuel args)
  | program (p : Program) : EvaluationIn fuel scope (p.run fuel scope)

theorem EvaluationIn.scoped {fuel : Nat} {scope : ScopeId} {x : Run Value}
    (h : EvaluationIn fuel scope x) : Run.Scoped scope x := by
  cases h with
  | statement s => exact (Run.allScoped fuel).stmt scope s
  | expression e => exact (Run.allScoped fuel).expr scope e
  | call callee args => exact (Run.allScoped fuel).call scope callee args
  | program p => exact (Run.allScoped fuel).body scope p .null

namespace Evaluation

variable {fuel : Nat} {x : Run Value}

theorem exists_in (h : Evaluation fuel x) : ∃ scope, EvaluationIn fuel scope x := by
  cases h with
  | statement scope s => exact ⟨scope, .statement s⟩
  | expression scope e => exact ⟨scope, .expression e⟩
  | call callee args => exact ⟨0, .call callee args⟩
  | program scope p => exact ⟨scope, .program p⟩

theorem composed (h : Evaluation fuel x) : x.Composed := by
  obtain ⟨scope, hx⟩ := h.exists_in
  exact hx.scoped.composed

/-- An evaluation leaves the call stack as it was, and keeps to the limit throughout. -/
theorem calls_balanced (h : Evaluation fuel x) (s : State) :
    (x.final s).calls = s.calls ∧
      ∀ max, s.calls.limit = some max → s.calls.depth ≤ max →
        ∀ t, x.Passes s t → t.calls.depth ≤ max :=
  ⟨h.composed.calls_final s, fun max hmax hs _ ht => ht.extends.bounded max hmax hs⟩

/-- With a limit of one, a call without a caller is active at some moment, and there is no room for
another. -/
theorem calls_balanced_alone :
    let heap := (Heap.empty.newClosure ⟨"f", [], [], 0⟩).2
    let s : State := ⟨heap, default, ⟨[], some 1⟩⟩
    let x := Value.call 2 (.function 0) []
    ∃ t, x.Passes s t ∧ t.calls.frames = ["f"] ∧ t.calls.depth ≤ 1 ∧
      (x.final s).calls = s.calls := by
  intro heap s x
  have hpasses : x.Passes s { s with calls := ⟨["f"], some 1⟩ } := by
    show (Value.call 2 (.function 0) []).Passes s _
    rw [Value.call]
    exact .second (.fromHeap _) rfl (.inside rfl (.start _))
  obtain ⟨hfinal, hbound⟩ := calls_balanced (.call (.function 0) []) s
  exact ⟨_, hpasses, rfl, hbound 1 rfl (Nat.zero_le 1) _ hpasses, hfinal⟩

end Evaluation

/-! ## Sessions -/

/-- A session goes on from the state in which its last program ended, whichever way that was. -/
theorem Session.runProgram_snd (fuel : Nat) (s : Session) (program : Program) :
    (s.runProgram fuel program).2 =
      { s with state := (program.run fuel s.scope).final s.state } := by
  unfold Session.runProgram Run.final
  cases program.run fuel s.scope s.state with
  | ok v t => rfl
  | error e t => cases e <;> rfl

/-- Whatever a program does, the next one in its session starts with the same active calls. -/
theorem Session.runProgram_calls (fuel : Nat) (s : Session) (program : Program) :
    (s.runProgram fuel program).2.state.calls = s.state.calls := by
  have h : Evaluation fuel (program.run fuel s.scope) := .program s.scope program
  rw [s.runProgram_snd fuel program]
  exact h.composed.calls_final s.state

end DialectScript
