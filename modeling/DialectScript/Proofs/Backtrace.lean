import Mathlib
import DialectScript.Proofs.Calls

/-!
# Backtraces

**Theorem (`Evaluation.backtrace_exact`).** A fault that ends an evaluation was raised somewhere,
and its backtrace is the list of the calls that were active there, or is missing if the fault was
raised outside every call that the evaluation entered. If no call was active before, a backtrace is
never empty, and the fault of a refused call names the limit and carries as many calls.

Where a run raises a fault (`Run.Raises`) is told from how the run is composed, without a look at
the backtrace. Two inductions tie the two together: what is raised leaves the run with the
backtrace of that place (`Run.Raises.ends`), and nothing else leaves it (`Run.Scoped.traced`).
-/

namespace DialectScript

/-! ## The calls that a fault knows -/

namespace CallStack

variable {s t raised : CallStack} {name : String} {f : Fault}

/-- The backtrace of a fault that was raised with the calls `raised` active, when it leaves a run
before which the calls `before` were active. -/
inductive Traces (before raised : CallStack) : Option Backtrace → Prop
  /-- The run had entered no call, or had left it again. -/
  | outside : raised = before → Traces before raised none
  | inside (entered : List String) : entered ≠ [] → raised.frames = entered ++ before.frames →
      Traces before raised (some raised.frames)

/-- A fault that leaves a call is given the calls active in it, unless it comes from deeper. -/
theorem Traces.attach (hpush : s.push name = .ok t) (h : Traces t raised f.backtrace) :
    Traces s raised (t.attach f).backtrace := by
  have ht : t.frames = name :: s.frames := by rw [(push_eq_ok hpush).1]
  obtain ⟨cause, backtrace⟩ := f
  cases h with
  | outside hraised =>
    subst hraised
    have hattach : raised.attach ⟨cause, none⟩ = ⟨cause, some raised.frames⟩ := by
      rw [CallStack.attach, ht]
      simp [capture, ht]
    rw [hattach]
    exact .inside [name] (List.cons_ne_nil _ _) ht
  | inside entered hentered hraised =>
    have hattach : t.attach ⟨cause, some raised.frames⟩ = ⟨cause, some raised.frames⟩ := by
      simp [CallStack.attach]
    rw [hattach]
    refine .inside (entered ++ [name]) (by simp) ?_
    rw [hraised, ht, List.append_assoc]
    rfl

/-- Without calls before, there is a backtrace exactly if a call is active at the raise. -/
theorem Traces.of_frames_eq_nil {backtrace : Option Backtrace} (h : Traces s raised backtrace)
    (hs : s.frames = []) :
    backtrace = if raised.frames = [] then none else some raised.frames := by
  cases h with
  | outside hraised => rw [hraised, if_pos hs]
  | inside entered hentered hraised =>
    rw [hs, List.append_nil] at hraised
    rw [if_neg (hraised ▸ hentered)]

end CallStack

/-! ## Where a fault is raised -/

namespace Run

/-- A run raises a fault, given how it is composed: the cause and the calls active there. -/
inductive Raises : {α : Type} → Run α → State → FaultCause → CallStack → Prop
  | fault {α : Type} {cause : FaultCause} (s : State) :
      cause.isOverflow = false → Raises (Run.fault cause : Run α) s cause s.calls
  | onScope {name : String} {f : Heap → Except ScopeError Heap} {s : State} {e : ScopeError} :
      f s.heap = .error e → Raises (Run.onScope name f) s (.ofScopeError name e) s.calls
  | readVariable {scope : ScopeId} {name : String} {s : State} {e : ScopeError} :
      s.heap.read scope name = .error e →
      Raises (Run.readVariable scope name) s (.ofScopeError name e) s.calls
  /-- A call that is refused is not active yet. -/
  | refused {α : Type} {name : String} {body : Run α} {s : State} {f : Fault} :
      s.calls.push name = .error f → Raises (inCall name body) s f.cause s.calls
  | inside {α : Type} {name : String} {body : Run α} {s : State} {cause : FaultCause}
      {calls raised : CallStack} :
      s.calls.push name = .ok calls → Raises body { s with calls } cause raised →
      Raises (inCall name body) s cause raised
  | first {α β : Type} {x : Run α} {f : α → Run β} {s : State} {cause : FaultCause}
      {raised : CallStack} :
      Raises x s cause raised → Raises (x >>= f) s cause raised
  | second {α β : Type} {x : Run α} {f : α → Run β} {s t : State} {a : α} {cause : FaultCause}
      {raised : CallStack} (hx : Composed x) :
      x s = .ok a t → Raises (f a) t cause raised → Raises (x >>= f) s cause raised

variable {α β : Type} {x : Run α} {f : α → Run β} {s : State} {cause : FaultCause}
  {raised : CallStack}

/-- A fault is raised where the calls from before are still active, below those entered since. -/
theorem Raises.extends (h : x.Raises s cause raised) : s.calls.Extends raised := by
  induction h with
  | fault | onScope | readVariable | refused => exact .refl _
  | inside hpush _ ih => exact (CallStack.extends_push hpush).trans ih
  | first _ ih => exact ih
  | second hx ht _ ih =>
    rw [← hx.calls_final, final_of_ok ht]
    exact ih

/-- Only a call at the limit overflows. -/
theorem Raises.overflow {limit : Nat} (h : x.Raises s (.stackOverflow limit) raised) :
    raised.limit = some limit ∧ limit ≤ raised.depth := by
  generalize hcause : FaultCause.stackOverflow limit = cause at h
  induction h with
  | fault s hc =>
    subst hcause
    cases hc
  | @onScope name f s e =>
    have h := FaultCause.isOverflow_ofScopeError name e
    rw [← hcause] at h
    cases h
  | @readVariable scope name s e =>
    have h := FaultCause.isOverflow_ofScopeError name e
    rw [← hcause] at h
    cases h
  | refused hpush =>
    obtain ⟨max, hmax, hfull, rfl⟩ := CallStack.push_eq_error hpush
    cases hcause
    exact ⟨hmax, hfull⟩
  | inside _ _ ih | first _ ih | second _ _ _ ih => exact ih hcause

/-- A fault that is raised ends the run, with the backtrace of the place. -/
theorem Raises.ends (h : x.Raises s cause raised) :
    ∃ f t, x s = .error (.fault f) t ∧ t.calls = s.calls ∧ f.cause = cause ∧
      s.calls.Traces raised f.backtrace := by
  induction h with
  | fault s _ => exact ⟨_, _, rfl, rfl, rfl, .outside rfl⟩
  | @onScope name f s e he =>
    refine ⟨.ofCause (.ofScopeError name e), s, ?_, rfl, rfl, .outside rfl⟩
    rw [Run.onScope, he]
  | @readVariable scope name s e he =>
    refine ⟨.ofCause (.ofScopeError name e), s, ?_, rfl, rfl, .outside rfl⟩
    rw [Run.readVariable, he]
  | refused hpush =>
    obtain ⟨max, -, -, rfl⟩ := CallStack.push_eq_error hpush
    refine ⟨_, _, ?_, rfl, rfl, .outside rfl⟩
    rw [Run.inCall, hpush]
  -- A fault from deeper calls has them already; one of the body itself is given the active ones.
  | @inside α name body s cause calls raised hpush _ ih =>
    obtain ⟨f, t, hbody, hcalls, hcause, htraces⟩ := ih
    dsimp only at hcalls htraces
    refine ⟨calls.attach f, { t with calls := calls.pop }, ?_, CallStack.pop_push hpush,
      (CallStack.attach_cause calls f).trans hcause, htraces.attach hpush⟩
    rw [Run.inCall, hpush]
    dsimp only
    rw [hbody]
    dsimp only
    rw [hcalls]
  | first _ ih =>
    obtain ⟨f, t, hx, hrest⟩ := ih
    exact ⟨f, t, by simp only [bind, EStateM.bind, hx], hrest⟩
  -- The first step gave the stack back, so the second one started with the stack of the whole.
  | second hx ht _ ih =>
    obtain ⟨f, u, hf, hcalls, hrest⟩ := ih
    rw [← final_of_ok ht, hx.calls_final] at hcalls hrest
    exact ⟨f, u, by simp only [bind, EStateM.bind, ht, hf], hcalls, hrest⟩

/-! ## Every fault is raised somewhere -/

/-- Every fault that ends the run is raised in it. -/
def Traced (x : Run α) : Prop :=
  ∀ s f t, x s = .error (.fault f) t → ∃ raised, x.Raises s f.cause raised

namespace Traced

theorem fault (h : cause.isOverflow = false) : Traced (Run.fault cause : Run α) := by
  intro s f t hf
  cases hf
  exact ⟨_, .fault s h⟩

theorem onScope (name : String) (f : Heap → Except ScopeError Heap) :
    Traced (Run.onScope name f) := by
  intro s f' t hf
  rw [Run.onScope] at hf
  cases he : f s.heap with
  | ok heap =>
    rw [he] at hf
    cases hf
  | error e =>
    rw [he] at hf
    cases hf
    exact ⟨_, .onScope he⟩

theorem readVariable (scope : ScopeId) (name : String) : Traced (Run.readVariable scope name) := by
  intro s f t hf
  rw [Run.readVariable] at hf
  cases he : s.heap.read scope name with
  | ok v =>
    rw [he] at hf
    cases hf
  | error e =>
    rw [he] at hf
    cases hf
    exact ⟨_, .readVariable he⟩

theorem bind (hx : Composed x) (h : Traced x) (hf : ∀ a, Traced (f a)) : Traced (x >>= f) := by
  intro s e t he
  simp only [Bind.bind, EStateM.bind] at he
  cases hs : x s with
  | ok a u =>
    rw [hs] at he
    obtain ⟨raised, hraised⟩ := hf a u e t he
    exact ⟨raised, .second hx hs hraised⟩
  | error stop u =>
    rw [hs] at he
    cases he
    obtain ⟨raised, hraised⟩ := h s e t hs
    exact ⟨raised, .first hraised⟩

theorem inCall (name : String) (h : Traced x) : Traced (Run.inCall name x) := by
  intro s f t hf
  rw [Run.inCall] at hf
  cases hpush : s.calls.push name with
  | error e =>
    rw [hpush] at hf
    cases hf
    exact ⟨_, .refused hpush⟩
  | ok calls =>
    rw [hpush] at hf
    dsimp only at hf
    cases hbody : x { s with calls } with
    | ok a u =>
      rw [hbody] at hf
      cases hf
    | error stop u =>
      rw [hbody] at hf
      cases stop with
      | outOfFuel => cases hf
      | fault e =>
        cases hf
        obtain ⟨raised, hraised⟩ := h _ e u hbody
        rw [CallStack.attach_cause]
        exact ⟨raised, .inside hpush hraised⟩

end Traced

theorem Plain.traced (h : Plain x) : Traced x := by
  induction h with
  | value | fromHeap | printLine | modifyArray => exact fun _ _ _ hf => nomatch hf
  | fault hcause => exact .fault hcause
  | bind hx _ ihx ihf => exact .bind hx.composed ihx ihf

theorem Scoped.traced {scope : ScopeId} (h : Scoped scope x) : Traced x := by
  induction h with
  | plain hx => exact hx.traced
  | outOfFuel | newObject | newArray | newClosure => exact fun _ _ _ hf => nomatch hf
  | readVariable name => exact .readVariable _ name
  | declare | assign => exact .onScope _ _
  | overwrite id key hx ih =>
    have hread := Plain.readProperty id key
    exact .bind hread.composed hread.traced fun _ => .bind hx.composed ih fun _ =>
      .bind hread.composed hread.traced fun _ =>
        .bind (.change _) (fun _ _ _ hf => nomatch hf) fun _ => (Plain.value _).traced
  | bind hx _ ihx ihf => exact .bind hx.composed ihx ihf
  | @apply α scope id args body _ ih =>
    have hclosure := Plain.fromHeap (·.closure id)
    refine .bind hclosure.composed hclosure.traced fun c => .inCall _ ?_
    have hbindings := Plain.ofExcept (Closure.fresh_bind c.params args .empty)
    exact .bind hbindings.composed hbindings.traced fun _ =>
      .bind (.make _) (fun _ _ _ hf => nomatch hf) fun inner => ih c inner

end Run

/-! ## Evaluations -/

namespace Evaluation

open Run

variable {fuel : Nat} {x : Run Value}

/-- A fault that ends an evaluation has the backtrace of the place where it was raised. -/
theorem backtrace_exact (h : Evaluation fuel x) {s t : State} {f : Fault}
    (hf : x s = .error (.fault f) t) :
    (∃ raised, x.Raises s f.cause raised) ∧
      (∀ raised, x.Raises s f.cause raised →
        (f.backtrace = none ∧ raised = s.calls) ∨
        ∃ entered, entered ≠ [] ∧ raised.frames = entered ++ s.calls.frames ∧
          f.backtrace = some raised.frames) ∧
      (s.calls.frames = [] →
        f.backtrace ≠ some [] ∧
        ∀ max, f.cause = .stackOverflow max →
          s.calls.limit = some max ∧
          if max = 0 then f.backtrace = none
          else ∃ calls, f.backtrace = some calls ∧ calls.length = max) := by
  -- From every place that raises the fault, what is attached on the way out is what was entered.
  obtain ⟨scope, hx⟩ := h.exists_in
  have htraces : ∀ raised, x.Raises s f.cause raised → s.calls.Traces raised f.backtrace := by
    intro raised hraised
    obtain ⟨f', t', hf', -, -, htraces⟩ := hraised.ends
    rw [hf] at hf'
    cases hf'
    exact htraces
  obtain ⟨raised, hraised⟩ := hx.scoped.traced s f t hf
  refine ⟨⟨raised, hraised⟩, fun raised hraised => ?_, fun hs => ?_⟩
  · generalize hb : f.backtrace = backtrace
    cases hb ▸ htraces raised hraised with
    | outside hbefore => exact .inl ⟨rfl, hbefore⟩
    | inside entered hentered hframes => exact .inr ⟨entered, hentered, hframes, rfl⟩
  · have hbacktrace := (htraces raised hraised).of_frames_eq_nil hs
    refine ⟨?_, fun max hmax => ?_⟩
    · rw [hbacktrace]
      split
      · nofun
      · next hne => exact fun h => hne (Option.some.inj h)
    · rw [hmax] at hraised
      obtain ⟨hlimit, hfull⟩ := hraised.overflow
      rw [hraised.extends.limit] at hlimit
      -- The stack was full where the call was refused, and it had started empty.
      have hdepth : raised.depth = max := by
        refine Nat.le_antisymm (hraised.extends.bounded max hlimit ?_) hfull
        simp [CallStack.depth, hs]
      refine ⟨hlimit, ?_⟩
      rw [hbacktrace]
      split
      · next h0 =>
        rw [if_pos (List.eq_nil_of_length_eq_zero (hdepth.trans h0))]
      · next h0 =>
        have hne : raised.frames ≠ [] := by
          intro hnil
          rw [CallStack.depth, hnil] at hdepth
          exact h0 hdepth.symm
        exact ⟨raised.frames, if_neg hne, hdepth⟩

/-- With a limit of one, a function that calls itself overflows with itself on the backtrace. -/
theorem backtrace_exact_recursive :
    let again : Stmt := .expression (.call (.identifier "f") [])
    let scope : Scope := ⟨Table.empty.insert "f" ⟨.function 0, .constant⟩, none⟩
    let s : State := ⟨⟨#[scope], #[], #[], #[⟨"f", [], [again], 0⟩]⟩, .silent, .empty (some 1)⟩
    let x := Value.call 5 (.function 0) []
    ∃ f t, x s = .error (.fault f) t ∧ f.cause = .stackOverflow 1 ∧
      (∃ raised, x.Raises s f.cause raised) ∧
      ∃ calls, f.backtrace = some calls ∧ calls.length = 1 := by
  intro again scope s x
  have hrun : x s = .error (.fault ⟨.stackOverflow 1, some ["f"]⟩) (x.final s) := by
    subst x s scope again
    cbv
  obtain ⟨hraised, -, hempty⟩ := backtrace_exact (.call (.function 0) []) hrun
  exact ⟨_, _, hrun, rfl, hraised, ((hempty rfl).2 1 rfl).2⟩

end Evaluation

end DialectScript
