import DialectScript.Proofs.Backtrace
import DialectScript.Proofs.Limit

/-!
# Programs that are run one after another

**Theorem (`Session.runAll_memoryless`).** Nothing but the heap and the output passes from one
program of a session to the next.

* Each program does what it would do with a new call stack.
* If all of them end with a value, they do together what they do as one program.
* A program that fails leaves what its statements before the failing one made, and what that one
  made up to the fault (`Run.FailsAt`). What comes after plays no part.

The first part is that every program gives the call stack back (`Session.runProgram_calls`). For the
second, statements are evaluated in order, so a sequence can be cut anywhere (`evalBody_append`).
For the third, a fault passes outwards through calls and sequences, which change nothing but the
call stack on its way (`Run.FailsAt.ends`).
-/

namespace DialectScript

/-! ## The state in which a fault arises -/

namespace Run

/-- A run fails in a state, given how it is composed: what stands before has been run to its end,
and nothing else has been run. -/
inductive FailsAt : {α : Type} → Run α → State → FaultCause → State → Prop
  | fault {α : Type} {cause : FaultCause} (s : State) :
      FailsAt (Run.fault cause : Run α) s cause s
  | onScope {name : String} {f : Heap → Except ScopeError Heap} {s : State} {e : ScopeError} :
      f s.heap = .error e → FailsAt (Run.onScope name f) s (.ofScopeError name e) s
  | readVariable {scope : ScopeId} {name : String} {s : State} {e : ScopeError} :
      s.heap.read scope name = .error e →
      FailsAt (Run.readVariable scope name) s (.ofScopeError name e) s
  | refused {α : Type} {name : String} {body : Run α} {s : State} {f : Fault} :
      s.calls.push name = .error f → FailsAt (inCall name body) s f.cause s
  | inside {α : Type} {name : String} {body : Run α} {s u : State} {cause : FaultCause}
      {calls : CallStack} :
      s.calls.push name = .ok calls → FailsAt body { s with calls } cause u →
      FailsAt (inCall name body) s cause u
  | first {α β : Type} {x : Run α} {f : α → Run β} {s u : State} {cause : FaultCause} :
      FailsAt x s cause u → FailsAt (x >>= f) s cause u
  | second {α β : Type} {x : Run α} {f : α → Run β} {s t u : State} {a : α} {cause : FaultCause}
      (hx : Composed x) :
      x s = .ok a t → FailsAt (f a) t cause u → FailsAt (x >>= f) s cause u

variable {α : Type} {x : Run α} {s u : State} {cause : FaultCause} {raised : CallStack}

/-- Where a fault is raised, the run fails in a state with the calls that are active there. -/
theorem Raises.failsAt (h : x.Raises s cause raised) :
    ∃ u, x.FailsAt s cause u ∧ u.calls = raised := by
  induction h with
  | fault s _ => exact ⟨s, .fault s, rfl⟩
  | onScope he => exact ⟨_, .onScope he, rfl⟩
  | readVariable he => exact ⟨_, .readVariable he, rfl⟩
  | refused hpush => exact ⟨_, .refused hpush, rfl⟩
  | inside hpush _ ih =>
    obtain ⟨u, hu, hcalls⟩ := ih
    exact ⟨u, .inside hpush hu, hcalls⟩
  | first _ ih =>
    obtain ⟨u, hu, hcalls⟩ := ih
    exact ⟨u, .first hu, hcalls⟩
  | second hx ht _ ih =>
    obtain ⟨u, hu, hcalls⟩ := ih
    exact ⟨u, .second hx ht hu, hcalls⟩

/-- A run that fails in a state leaves its heap and its output; the calls are left. -/
theorem FailsAt.ends (h : x.FailsAt s cause u) :
    ∃ f, f.cause = cause ∧ x s = .error (.fault f) { u with calls := s.calls } := by
  induction h with
  | fault s => exact ⟨_, rfl, rfl⟩
  | @onScope name f s e he => exact ⟨.ofCause (.ofScopeError name e), rfl, by rw [Run.onScope, he]⟩
  | @readVariable scope name s e he =>
    exact ⟨.ofCause (.ofScopeError name e), rfl, by rw [Run.readVariable, he]⟩
  | @refused α name body s f hpush => exact ⟨f, rfl, by rw [inCall, hpush]⟩
  | @inside α name body s u cause calls hpush _ ih =>
    obtain ⟨f, rfl, hbody⟩ := ih
    refine ⟨calls.attach f, CallStack.attach_cause calls f, ?_⟩
    simp only [inCall, hpush, hbody, CallStack.pop_push hpush]
  | first _ ih =>
    obtain ⟨f, hcause, hx⟩ := ih
    exact ⟨f, hcause, by simp only [bind, EStateM.bind, hx]⟩
  | second hx ht _ ih =>
    obtain ⟨f, hcause, hf⟩ := ih
    rw [← final_of_ok ht, hx.calls_final, final_of_ok ht] at hf
    exact ⟨f, hcause, by simp only [bind, EStateM.bind, ht, hf]⟩

end Run

/-! ## Statements in order -/

section Statements

variable {n : Nat} {scope : ScopeId} {s t : State} {v : Value}

/-- Statements can be evaluated in two parts. The second part has the fuel that the first leaves. -/
theorem evalBody_append (n : Nat) (scope : ScopeId) (p q : List Stmt) (last : Value) :
    evalBody (n + p.length) scope (p ++ q) last =
      evalBody (n + p.length) scope p last >>= fun v => evalBody n scope q v := by
  induction p generalizing last with
  | nil =>
    cases n with
    | zero => rw [List.length_nil, List.nil_append, evalBody, evalBody]; rfl
    | succ n =>
      have hnil : evalBody (n + 1) scope [] last = pure last := by rw [evalBody]
      rw [List.length_nil, List.nil_append, Nat.add_zero, hnil, pure_bind]
  | cons stmt p ih =>
    rw [List.length_cons, ← Nat.add_assoc, List.cons_append, evalBody, evalBody, bind_assoc]
    simp only [ih]

/-- What comes before counts only if there is no statement. -/
theorem evalBody_last {body : List Stmt} (h : evalBody n scope body .null s = .ok v t)
    (last : Value) :
    evalBody n scope body last s = .ok (if body = [] then last else v) t := by
  cases n with
  | zero =>
    rw [evalBody] at h
    cases h
  | succ n =>
    cases body with
    | nil =>
      rw [evalBody] at h ⊢
      cases h
      rfl
    | cons stmt rest =>
      rw [evalBody] at h ⊢
      rw [h]
      rfl

/-- A fault comes out of one of the statements, behind others that have been evaluated. -/
theorem evalBody_fault {body : List Stmt} {last : Value} {f : Fault}
    (h : evalBody n scope body last s = .error (.fault f) t) :
    ∃ done stmt rest m v u, body = done ++ stmt :: rest ∧ n = m + 1 + done.length ∧
      evalBody n scope done last s = .ok v u ∧ stmt.eval m scope u = .error (.fault f) t := by
  induction body generalizing n last s with
  | nil => cases n <;> rw [evalBody] at h <;> cases h
  | cons stmt rest ih =>
    cases n with
    | zero =>
      rw [evalBody] at h
      cases h
    | succ n =>
      rw [evalBody] at h
      simp only [bind, EStateM.bind] at h
      cases hstmt : stmt.eval n scope s with
      | error e u =>
        rw [hstmt] at h
        cases h
        exact ⟨[], stmt, rest, n, last, s, rfl, rfl, by rw [evalBody]; rfl, hstmt⟩
      | ok v u =>
        rw [hstmt] at h
        obtain ⟨done, stmt', rest', m, w, u', rfl, rfl, hdone, hfault⟩ := ih h
        refine ⟨stmt :: done, stmt', rest', m, w, u', rfl, rfl, ?_, hfault⟩
        rw [evalBody]
        simp only [bind, EStateM.bind, hstmt, hdone]

end Statements

/-! ## Sessions -/

namespace Session

variable {fuel n : Nat} {s r r' : Session} {program : Program} {programs : List Program}
variable {v : Value} {f : Fault}

/-- The session with a new call stack of the same limit. -/
def renewed (s : Session) : Session :=
  { s with state := { s.state with calls := .empty s.state.calls.limit } }

/-- Run programs one after another, whatever becomes of each: how each of them ends, and the session
behind it. -/
def runAll (run : Session → Program → Outcome × Session) (s : Session) :
    List Program → List (Outcome × Session)
  | [] => []
  | program :: rest => run s program :: (run s program).2.runAll run rest

/-- A program of a session has failed, and what it did before is left. -/
structure Fails (fuel : Nat) (s : Session) (program : Program) (f : Fault) (r : Session) :
    Prop where
  /-- A statement fails behind others that are evaluated, whatever stands behind it. -/
  statement : ∃ done stmt rest v t, program = done ++ stmt :: rest ∧
    s.runProgram fuel done = (.value v, t) ∧ t.runProgram fuel [stmt] = (.fault f, r) ∧
    ∀ other, s.runProgram fuel (done ++ stmt :: other) = (.fault f, r)
  /-- Inside the statement, too, what comes before the fault is left, and nothing else. -/
  place : ∃ u, (program.run fuel s.scope).FailsAt s.state f.cause u
  left : ∀ u, (program.run fuel s.scope).FailsAt s.state f.cause u →
    r = { s with state := { u with calls := s.state.calls } }

theorem runProgram_of_ok {t : State} (h : program.run fuel s.scope s.state = .ok v t) :
    s.runProgram fuel program = (.value v, { s with state := t }) := by
  rw [runProgram, h]

theorem runProgram_of_fault {t : State}
    (h : program.run fuel s.scope s.state = .error (.fault f) t) :
    s.runProgram fuel program = (.fault f, { s with state := t }) := by
  rw [runProgram, h]

theorem run_of_value (h : (s.runProgram fuel program).1 = .value v) :
    ∃ t, program.run fuel s.scope s.state = .ok v t := by
  rw [runProgram] at h
  cases hrun : program.run fuel s.scope s.state with
  | ok w t =>
    rw [hrun] at h
    cases h
    exact ⟨t, rfl⟩
  | error e t =>
    rw [hrun] at h
    cases e <;> cases h

theorem run_of_fault (h : s.runProgram fuel program = (.fault f, r)) :
    ∃ t, program.run fuel s.scope s.state = .error (.fault f) t ∧ r = { s with state := t } := by
  rw [runProgram] at h
  cases hrun : program.run fuel s.scope s.state with
  | ok w t =>
    rw [hrun] at h
    cases h
  | error e t =>
    rw [hrun] at h
    cases e with
    | outOfFuel => cases h
    | fault e =>
      cases h
      exact ⟨t, rfl, rfl⟩

/-! ### A new call stack -/

theorem renewed_eq_self (h : s.state.calls.frames = []) : s.renewed = s := by
  have hcalls : CallStack.empty s.state.calls.limit = s.state.calls := by
    rw [CallStack.empty, ← h]
  rw [renewed, hcalls]

/-- No program leaves calls to the next. -/
theorem runAll_renewed (hcalls : s.state.calls.frames = []) :
    s.runAll (runProgram fuel) programs =
      s.runAll (fun s => s.renewed.runProgram fuel) programs := by
  induction programs generalizing s with
  | nil => rfl
  | cons program rest ih =>
    have hnext : (s.runProgram fuel program).2.state.calls.frames = [] := by
      rw [s.runProgram_calls, hcalls]
    rw [runAll, runAll, renewed_eq_self hcalls, ih hnext]

/-! ### One program -/

/-- Programs that end with values do together what they do as one. The value of the last one counts,
unless it is empty. -/
theorem evalBody_flatten (hvalues : ∀ r ∈ s.runAll (runProgram fuel) programs, ∃ v, r.1 = .value v)
    (hn : fuel + programs.flatten.length < n) (last : Value) (before : Outcome × Session)
    (hbefore : before.2 = s) :
    ∃ v t, evalBody n s.scope programs.flatten last s.state = .ok v t ∧
      ((s.runAll (runProgram fuel) programs).getLastD before).2 = { s with state := t } ∧
      (programs.getLast? ≠ some [] → (programs = [] → before.1 = .value last) →
        ((s.runAll (runProgram fuel) programs).getLastD before).1 = .value v) := by
  induction programs generalizing s n last before with
  | nil =>
    obtain ⟨n, rfl⟩ := Nat.exists_eq_add_of_lt hn
    refine ⟨last, s.state, ?_, hbefore, fun _ h => h rfl⟩
    rw [List.flatten_nil, evalBody]
    rfl
  | cons program rest ih =>
    rw [runAll, List.forall_mem_cons] at hvalues
    obtain ⟨⟨v, hv⟩, hrest⟩ := hvalues
    obtain ⟨t, hrun⟩ := run_of_value hv
    rw [List.flatten_cons, List.length_append] at hn
    obtain ⟨m, rfl⟩ : ∃ m, n = m + program.length := ⟨n - program.length, by omega⟩
    have hmore : evalBody (m + program.length) s.scope program .null s.state = .ok v t := by
      have hle : fuel ≤ m + program.length := by omega
      exact (Program.run_of_le hle s.scope program (by simp [hrun])).trans hrun
    -- An empty program passes on the value from before it, so that value is carried along.
    have hfirst := evalBody_last hmore last
    have hnext := runProgram_of_ok hrun
    have hlt : fuel + rest.flatten.length < m := by omega
    rw [hnext] at hrest
    obtain ⟨w, u, hw, hstate, hvalue⟩ :=
      ih hrest hlt (if program = [] then last else v) (.value v, { s with state := t }) rfl
    rw [runAll, hnext, List.getLastD_cons]
    refine ⟨w, u, ?_, hstate, fun hlast _ => hvalue ?_ ?_⟩
    · rw [List.flatten_cons, evalBody_append]
      simp only [bind, EStateM.bind, hfirst]
      exact hw
    · intro hempty
      rw [List.getLast?_cons, hempty] at hlast
      exact hlast rfl
    · rintro rfl
      rw [if_neg]
      rintro rfl
      exact hlast rfl

/-! ### Failures -/

theorem fails_of_fault (h : s.runProgram fuel program = (.fault f, r)) :
    s.Fails fuel program f r := by
  obtain ⟨t, hrun, rfl⟩ := run_of_fault h
  obtain ⟨raised, hraised⟩ := ((Run.allScoped fuel).body s.scope program .null).traced _ f t hrun
  obtain ⟨u, hu, -⟩ := hraised.failsAt
  refine ⟨?_, ⟨u, hu⟩, fun u' hu' => ?_⟩
  · obtain ⟨done, stmt, rest, m, v, w, rfl, rfl, hdone, hstmt⟩ := evalBody_fault hrun
    -- The statements behind the one that fails are never looked at.
    have hother : ∀ other, evalBody (m + 1 + done.length) s.scope (done ++ stmt :: other) .null
        s.state = .error (.fault f) t := fun other => by
      rw [evalBody_append]
      simp only [bind, EStateM.bind, hdone]
      rw [evalBody]
      simp only [bind, EStateM.bind, hstmt]
    have halone : Program.run (m + 1) s.scope [stmt] w = .error (.fault f) t := by
      rw [Program.run, evalBody]
      simp only [bind, EStateM.bind, hstmt]
    refine ⟨done, stmt, rest, v, { s with state := w }, rfl, runProgram_of_ok hdone, ?_,
      fun other => runProgram_of_fault (hother other)⟩
    have hmore := Program.run_of_le (Nat.le_add_right (m + 1) done.length) s.scope [stmt]
      (s := w) (by simp [halone])
    exact runProgram_of_fault (hmore.trans halone)
  · obtain ⟨f', -, hf'⟩ := hu'.ends
    rw [hrun] at hf'
    cases hf'
    rfl

/-- In a session without active calls, each program does what it does with a new call stack. If all
end with values, they do together what they do as one program. What a program does before it fails
is left, and nothing else. -/
theorem runAll_memoryless (fuel : Nat) (s : Session) (hcalls : s.state.calls.frames = [])
    (programs : List Program) :
    s.runAll (runProgram fuel) programs = s.runAll (fun s => s.renewed.runProgram fuel) programs ∧
      ((∀ r ∈ s.runAll (runProgram fuel) programs, ∃ v, r.1 = .value v) →
        let last := (s.runAll (runProgram fuel) programs).getLastD (.value .null, s)
        ∃ v, (∀ n, fuel + programs.flatten.length < n →
            s.runProgram n programs.flatten = (.value v, last.2)) ∧
          (programs.getLast? ≠ some [] → last.1 = .value v)) ∧
      ∀ (r : Session) (program : Program) (f : Fault) (r' : Session),
        r.runProgram fuel program = (.fault f, r') → r.Fails fuel program f r' := by
  refine ⟨runAll_renewed hcalls, fun hvalues => ?_, fun r program f r' => fails_of_fault⟩
  obtain ⟨v, t, hrun, hlast, hvalue⟩ :=
    evalBody_flatten hvalues (Nat.lt_succ_self _) .null (.value .null, s) rfl
  refine ⟨v, fun n hn => ?_, fun hne => hvalue hne fun _ => rfl⟩
  rw [hlast]
  have hends : ∀ u, Program.run (fuel + programs.flatten.length).succ s.scope programs.flatten
      s.state ≠ .error .outOfFuel u := fun u hu => by
    rw [Program.run, hrun] at hu
    cases hu
  exact runProgram_of_ok ((Program.run_of_le hn s.scope _ hends).trans hrun)

/-- Two lines end with the value that they have as one program, and a line fails where it reads a
name that is not declared. -/
theorem runAll_memoryless_lines :
    let heap : Heap := ⟨#[⟨.empty, none⟩], #[], #[], #[]⟩
    let s : Session := ⟨⟨heap, .silent, .empty (some 8)⟩, 0, .standard⟩
    let lines : List Program :=
      [[.declare .mutable "x" (some (.string "a"))], [.expression (.identifier "x")]]
    let wrong : Program := [.declare .mutable "x" none, .expression (.identifier "y")]
    (∀ n, 6 < n → (s.runProgram n lines.flatten).1 = .value (.string "a")) ∧
      ∃ u, (wrong.run 4 0).FailsAt s.state (.undeclaredVariable "y") u := by
  intro heap s lines wrong
  have hlines : s.runAll (runProgram 4) lines =
      [(.value (.string "a"), (s.runProgram 4 lines.flatten).2),
        (.value (.string "a"), (s.runProgram 4 lines.flatten).2)] := by
    cbv
  have hwrong : s.runProgram 4 wrong =
      (.fault ⟨.undeclaredVariable "y", none⟩, (s.runProgram 4 wrong).2) := by
    subst wrong s heap
    cbv
  obtain ⟨-, hjoined, hfails⟩ := runAll_memoryless 4 s rfl lines
  obtain ⟨v, hrun, hvalue⟩ := hjoined (by simp [hlines])
  obtain rfl : v = .string "a" := by
    have hlast := hvalue (by simp [lines])
    rw [hlines] at hlast
    cases hlast
    rfl
  exact ⟨fun n hn => by rw [hrun n hn], (hfails s wrong _ _ hwrong).place⟩

end Session

end DialectScript
