import Mathlib
import DialectScript.Proofs.Printing
import DialectScript.Run.Fuel

/-!
# The call limit

**Theorem (`Program.run_limit`).** A higher limit changes only what a lower one has cut short: a
program that ends under the lower limit in any other way than by an overflow ends in the same way,
with the same heap and output, under the higher one, and if it overflows, what it printed is where
the output under the higher limit begins.

The limit is looked at only when a call is entered. So two runs from states that differ in their
limits go the same way until the lower limit refuses a call; from there on the first run only
unwinds, and the second can but print more (`Run.Composed.run_withLimit`).
-/

namespace DialectScript

namespace CallStack

/-- The first limit allows no more calls than the second; without a limit, all calls are
allowed. -/
inductive LimitLe : Option Nat → Option Nat → Prop
  | some {max max' : Nat} : max ≤ max' → LimitLe (some max) (some max')
  | none (limit : Option Nat) : LimitLe limit none

/-- The same active calls under another limit. -/
def withLimit (s : CallStack) (limit : Option Nat) : CallStack := { s with limit }

/-- A call that one limit allows is allowed by a higher one. -/
theorem push_withLimit {s t : CallStack} {name : String} {limit : Option Nat}
    (hle : LimitLe s.limit limit) (h : s.push name = .ok t) :
    (s.withLimit limit).push name = .ok (t.withLimit limit) := by
  obtain ⟨rfl, hroom⟩ := push_eq_ok h
  obtain ⟨frames, max⟩ := s
  cases hle with
  | none _ => rfl
  | some hmax => exact if_neg (Nat.not_le.2 (Nat.lt_of_lt_of_le (hroom _ rfl) hmax))

end CallStack

open CallStack (LimitLe)

/-- The same state under another limit. -/
def State.withLimit (s : State) (limit : Option Nat) : State :=
  { s with calls := s.calls.withLimit limit }

namespace Run

variable {α β : Type} {x : Run α} {s : State} {limit : Option Nat}

/-- The same end of a run under another limit. -/
def endWithLimit (limit : Option Nat) :
    EStateM.Result Stop State α → EStateM.Result Stop State α
  | .ok a t => .ok a (t.withLimit limit)
  | .error e t => .error e (t.withLimit limit)

/-- The run ends because a call was refused. -/
def Overflows (x : Run α) (s : State) : Prop :=
  ∃ f t, x s = .error (.fault f) t ∧ f.cause.isOverflow = true

/-- Under a higher limit, a run ends in the same way, or it overflows and the other run only adds
to its output. -/
inductive Outlasts (limit : Option Nat) (x : Run α) (s : State) : Prop
  | same : x (s.withLimit limit) = endWithLimit limit (x s) → Outlasts limit x s
  | longer : x.Overflows s → (x.final s).output.Extends (x.final (s.withLimit limit)).output →
      Outlasts limit x s

namespace Outlasts

theorem bind {f : α → Run β} (hf : ∀ a, Composed (f a)) (h : Outlasts limit x s)
    (hnext : ∀ a t, x s = .ok a t → Outlasts limit (f a) t) : Outlasts limit (x >>= f) s := by
  cases h with
  | same hsame =>
    cases hx : x s with
    | error e t =>
      rw [hx] at hsame
      exact .same (by simp only [Bind.bind, EStateM.bind, hx, hsame, endWithLimit])
    | ok a t =>
      rw [hx] at hsame
      -- Both runs go on with the same result, in states that differ in the limit.
      have hlow : (x >>= f) s = f a t := by simp only [Bind.bind, EStateM.bind, hx]
      have hhigh : (x >>= f) (s.withLimit limit) = f a (t.withLimit limit) := by
        simp only [Bind.bind, EStateM.bind, hsame, endWithLimit]
      cases hnext a t hx with
      | same hsame => exact .same (by rw [hlow, hhigh, hsame])
      | longer hover hmore =>
        refine .longer ?_ ?_
        · rwa [Overflows, hlow]
        · rwa [final, hlow, final, hhigh]
  | longer hover hmore =>
    obtain ⟨e, t, hx, he⟩ := hover
    have hlow : (x >>= f) s = .error (.fault e) t := by simp only [Bind.bind, EStateM.bind, hx]
    refine .longer ⟨e, t, hlow, he⟩ ?_
    rw [final_of_error hx] at hmore
    rw [final_of_error hlow]
    rcases final_bind x f (s.withLimit limit) with ⟨a, -, hfinal⟩ | hfinal
    · rw [hfinal]
      exact hmore.trans ((hf a).output_final _)
    · rwa [hfinal]

theorem inCall (name : String) (hx : Composed x) (hle : LimitLe s.calls.limit limit)
    (h : ∀ calls, s.calls.push name = .ok calls → Outlasts limit x { s with calls }) :
    Outlasts limit (Run.inCall name x) s := by
  cases hpush : s.calls.push name with
  | error f =>
    -- The lower limit refuses the call before the body has done anything.
    have hlow : Run.inCall name x s = .error (.fault f) s := by simp only [Run.inCall, hpush]
    obtain ⟨max, -, -, rfl⟩ := CallStack.push_eq_error hpush
    refine .longer ⟨_, _, hlow, rfl⟩ ?_
    rw [final_of_error hlow]
    exact (hx.inCall name).output_final (s.withLimit limit)
  | ok calls =>
    have hpush' : (s.withLimit limit).calls.push name = .ok (calls.withLimit limit) :=
      CallStack.push_withLimit hle hpush
    cases h calls hpush with
    | same hsame =>
      refine .same ?_
      simp only [Run.inCall, hpush, hpush']
      rw [show x { s.withLimit limit with calls := calls.withLimit limit } = _ from hsame]
      cases x { s with calls } with
      | ok a t => rfl
      | error e t => cases e <;> rfl
    | longer hover hmore =>
      obtain ⟨e, t, ht, he⟩ := hover
      have hlow : Run.inCall name x s =
          .error (.fault (t.calls.attach e)) { t with calls := t.calls.pop } := by
        simp only [Run.inCall, hpush, ht]
      refine .longer ⟨_, _, hlow, by rwa [CallStack.attach_cause]⟩ ?_
      rw [final_of_error ht] at hmore
      rw [final_of_error hlow, final_inCall_of_push hpush']
      exact hmore

end Outlasts

/-- Under a higher limit a composed run ends in the same way, or it overflows and the other run only
adds to its output. -/
theorem Composed.run_withLimit (h : Composed x) (s : State) (hle : LimitLe s.calls.limit limit) :
    Outlasts limit x s := by
  induction h generalizing s with
  | value | stop | fromHeap | change | make | printLine => exact .same rfl
  | onScope name f =>
    refine .same ?_
    simp only [Run.onScope, State.withLimit]
    cases f s.heap <;> rfl
  | readVariable scope name =>
    refine .same ?_
    simp only [Run.readVariable, State.withLimit]
    cases s.heap.read scope name <;> rfl
  | bind hx hf ihx ihf =>
    refine .bind hf (ihx s hle) fun a t hxt => ihf a t ?_
    rwa [← final_of_ok hxt, hx.calls_final]
  | inCall name hbody ih =>
    refine .inCall name hbody hle fun calls hpush => ih _ ?_
    rwa [(CallStack.extends_push hpush).limit]

end Run

/-! ## Programs -/

/-- What has ended is the same with more fuel. -/
theorem Program.run_of_le {n m : Nat} (hnm : n ≤ m) (scope : ScopeId) (program : Program)
    {s : State} (hends : ∀ u, program.run n scope s ≠ .error .outOfFuel u) :
    program.run m scope s = program.run n scope s :=
  Run.Below.eq_of_ends (fun n => (FuelStep.all n).body scope program .null) hnm hends

/-- A higher limit changes only what a lower one has cut short. -/
theorem Program.run_limit {low high : Option Nat} (hle : LimitLe low high) (scope : ScopeId)
    (program : Program) (s : State) :
    (∀ n v t, program.run n scope (s.withLimit low) = .ok v t →
        program.run n scope (s.withLimit high) = .ok v (t.withLimit high)) ∧
      (∀ n f t, program.run n scope (s.withLimit low) = .error (.fault f) t →
        f.cause.isOverflow = false →
        program.run n scope (s.withLimit high) = .error (.fault f) (t.withLimit high)) ∧
      ∀ n m f t, program.run n scope (s.withLimit low) = .error (.fault f) t →
        f.cause.isOverflow = true →
        (∀ u, program.run m scope (s.withLimit high) ≠ .error .outOfFuel u) →
        t.output.Extends ((program.run m scope).final (s.withLimit high)).output := by
  have hrun (n : Nat) : Evaluation n (program.run n scope) := .program scope program
  have houtlasts (n : Nat) : (program.run n scope).Outlasts high (s.withLimit low) :=
    (hrun n).composed.run_withLimit _ hle
  -- With the same fuel, the higher limit changes nothing, or the lower one has overflowed.
  refine ⟨fun n v t hv => ?_, fun n f t hf hcause => ?_, fun n m f t hf hcause hends => ?_⟩
  · cases houtlasts n with
    | same hsame =>
      rw [hv] at hsame
      exact hsame
    | longer hover _ =>
      obtain ⟨f, u, hf, -⟩ := hover
      rw [hv] at hf
      cases hf
  · cases houtlasts n with
    | same hsame =>
      rw [hf] at hsame
      exact hsame
    | longer hover _ =>
      obtain ⟨f', u, hf', hover⟩ := hover
      rw [hf] at hf'
      cases hf'
      rw [hcause] at hover
      cases hover
  · -- Both runs are compared with the fuel of the one that needed more.
    have hlow : program.run (max n m) scope (s.withLimit low) = .error (.fault f) t :=
      (run_of_le (Nat.le_max_left n m) scope program (by rw [hf]; nofun)).trans hf
    have hhigh := run_of_le (Nat.le_max_right n m) scope program hends
    rw [Run.final, ← hhigh, ← Run.final]
    cases houtlasts (max n m) with
    | same hsame =>
      rw [hlow] at hsame
      have hend : (program.run (max n m) scope).final (s.withLimit high) = t.withLimit high :=
        Run.final_of_error hsame
      rw [hend]
      exact .refl t.output
    | longer _ hmore =>
      rw [Run.final_of_error hlow] at hmore
      exact hmore

/-- Under a limit of one and under a limit of two: a program that prints, one that reads an unbound
name, and one that prints until it overflows. -/
theorem Program.run_limit_recursive :
    let print : Stmt := .expression (.call (.identifier "print") [.string "a"])
    let unbound : Stmt := .expression (.identifier "x")
    let again : Stmt := .expression (.call (.identifier "f") [])
    let bindings : Table Binding :=
      (Table.empty.insert "print" ⟨.builtin .print, .constant⟩).insert "f" ⟨.function 0, .constant⟩
    let heap : Heap := ⟨#[⟨bindings, none⟩], #[], #[], #[⟨"f", [], [print, again], 0⟩]⟩
    let s : State := ⟨heap, .buffer "", .empty none⟩
    let low := s.withLimit (some 1)
    let high := s.withLimit (some 2)
    (∃ t, run 5 0 [print] low = .ok .null t ∧
      run 5 0 [print] high = .ok .null (t.withLimit (some 2))) ∧
    (∃ f t, run 5 0 [unbound] low = .error (.fault f) t ∧
      run 5 0 [unbound] high = .error (.fault f) (t.withLimit (some 2))) ∧
    ∃ f t, run 20 0 [again] low = .error (.fault f) t ∧ f.cause.isOverflow = true ∧
      t.output = .buffer "a\n" ∧ t.output.Extends (Run.final (run 30 0 [again]) high).output := by
  intro print unbound again bindings heap s low high
  have hle : LimitLe (some 1) (some 2) := .some (by decide)
  -- The third program calls itself without end and overflows at either limit.
  have hprint : run 5 0 [print] low = .ok .null (Run.final (run 5 0 [print]) low) := by
    subst low s heap bindings again print
    cbv
  have hunbound : run 5 0 [unbound] low =
      .error (.fault (.ofCause (.undeclaredVariable "x"))) (Run.final (run 5 0 [unbound]) low) := by
    subst low s heap bindings again print unbound
    cbv
  have hagain : run 20 0 [again] low =
      .error (.fault ⟨.stackOverflow 1, some ["f"]⟩) (Run.final (run 20 0 [again]) low) := by
    subst low s heap bindings again print
    cbv
  have hprinted : (Run.final (run 20 0 [again]) low).output = .buffer "a\n" := by
    subst low s heap bindings again print
    cbv
  have hhigh : run 30 0 [again] high =
      .error (.fault ⟨.stackOverflow 2, some ["f", "f"]⟩) (Run.final (run 30 0 [again]) high) := by
    subst high s heap bindings again print
    cbv
  refine ⟨⟨_, hprint, (run_limit hle 0 [print] s).1 5 _ _ hprint⟩,
    ⟨_, _, hunbound, (run_limit hle 0 [unbound] s).2.1 5 _ _ hunbound rfl⟩,
    _, _, hagain, rfl, hprinted, (run_limit hle 0 [again] s).2.2 20 30 _ _ hagain rfl ?_⟩
  intro u hu
  rw [hhigh] at hu
  cases hu

end DialectScript
