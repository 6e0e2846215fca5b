import DialectScript.Proofs.Steps
import Mathlib.Data.List.Induction
import Mathlib.Data.List.Nodup

/-!
# Parameters of a call

A call goes through the parameters and the arguments together and puts one binding after another
into the scope that the body will run in.

**Theorem (`Value.call_binds`).** Let there be room for one more call.

* *Distinct parameters.* The body runs in a new scope inside the one that the function was declared
  in. The bindings of the new scope are the parameters in order, constants with the value of the
  argument at the same position, or with null where there is none (`Closure.parameters`).
* *Arguments.* Two lists of arguments that agree in this way up to the last parameter give the same
  call. So arguments behind the last parameter, and nulls at the end, make no difference.
* *A parameter that repeats an earlier one.* The fault names the first of these and has the function
  as its most recent call. Nothing is evaluated, and the state is what it was before.

The bindings that were put in are kept as an accumulator, so both inductions are over the parameters
with any bindings already there, none of which has the name of a parameter.
-/

namespace DialectScript

open Run

namespace Closure

/-- The parameters with what the arguments give them. -/
def parameters (params : List String) (args : List Value) : List (String × Binding) :=
  params.mapIdx fun i param => (param, ⟨args.getD i .null, .constant⟩)

variable {params : List String} {bindings : Table Binding}

theorem parameters_cons (param : String) (params : List String) (args : List Value) :
    parameters (param :: params) args =
      (param, ⟨args.headD .null, .constant⟩) :: parameters params args.tail := by
  unfold parameters
  rw [List.mapIdx_cons]
  cases args <;> simp

/-- Other names stay free when one is bound. -/
theorem free_insert {param : String} (hparam : param ∉ params)
    (hfree : ∀ name ∈ params, bindings.contains name = false) (b : Binding) :
    ∀ name ∈ params, (bindings.insert param b).contains name = false := by
  intro name hname
  have hne : name ≠ param := fun heq => hparam (heq ▸ hname)
  rw [Table.contains_insert, hfree name hname, Bool.or_false]
  exact beq_false_of_ne hne

/-- Distinct parameters are bound in order, behind the bindings that are there. -/
theorem bind_of_nodup (hnodup : params.Nodup) (args : List Value)
    (hfree : ∀ name ∈ params, bindings.contains name = false) :
    ∃ bindings', bind params args bindings = .ok bindings' ∧
      bindings'.entries = bindings.entries ++ parameters params args := by
  induction params generalizing args bindings with
  | nil => exact ⟨bindings, rfl, (List.append_nil _).symm⟩
  | cons param params ih =>
    rw [List.nodup_cons] at hnodup
    rw [List.forall_mem_cons] at hfree
    obtain ⟨bindings', hbind, hentries⟩ :=
      ih hnodup.2 args.tail (free_insert hnodup.1 hfree.2 ⟨args.headD .null, .constant⟩)
    refine ⟨bindings', by rw [bind, hfree.1]; exact hbind, ?_⟩
    rw [hentries, Table.entries_insert_of_not_contains hfree.1, parameters_cons, List.append_assoc]
    rfl

/-- A parameter that is bound already is at fault, if none before it is. -/
theorem bind_of_mem {before after : List String} {param : String} (hnodup : before.Nodup)
    (args : List Value) (hfree : ∀ name ∈ before, bindings.contains name = false)
    (hparam : param ∈ before ∨ bindings.contains param = true) :
    bind (before ++ param :: after) args bindings =
      .error (.ofCause (.redeclaredVariable param)) := by
  induction before generalizing args bindings with
  | nil =>
    have hbound : bindings.contains param = true := hparam.resolve_left List.not_mem_nil
    rw [List.nil_append, bind, if_pos hbound]
  | cons first before ih =>
    rw [List.nodup_cons] at hnodup
    rw [List.forall_mem_cons] at hfree
    rw [List.cons_append, bind, hfree.1]
    refine ih hnodup.2 args.tail (free_insert hnodup.1 hfree.2 _) ?_
    rw [Table.contains_insert, Bool.or_eq_true, beq_iff_eq]
    rcases hparam with hmem | hbound
    · exact (List.mem_cons.1 hmem).symm.imp_right .inl
    · exact .inr (.inr hbound)

/-- Arguments count only as far as they give values to the parameters. -/
theorem bind_congr {args args' : List Value}
    (h : ∀ i < params.length, args.getD i .null = args'.getD i .null) :
    bind params args bindings = bind params args' bindings := by
  induction params generalizing args args' bindings with
  | nil => rfl
  | cons param params ih =>
    have hhead : args.headD .null = args'.headD .null := by
      have h0 := h 0 (Nat.zero_lt_succ _)
      cases args <;> cases args' <;> exact h0
    have htail : ∀ i < params.length, args.tail.getD i .null = args'.tail.getD i .null := by
      intro i hi
      have hsucc := h (i + 1) (Nat.succ_lt_succ hi)
      cases args <;> cases args' <;> exact hsucc
    rw [bind, bind, hhead, ih htail]

/-- Where names are not distinct, one is the first to repeat another. -/
theorem exists_first_repeat (h : ¬ params.Nodup) :
    ∃ before param after, params = before ++ param :: after ∧ before.Nodup ∧ param ∈ before := by
  induction params using List.reverseRecOn with
  | nil => exact (h List.nodup_nil).elim
  | append_singleton names last ih =>
    by_cases hnodup : names.Nodup
    · by_cases hlast : last ∈ names
      · exact ⟨names, last, [], rfl, hnodup, hlast⟩
      · refine (h ?_).elim
        rw [← List.concat_eq_append]
        exact List.Nodup.concat hlast hnodup
    · obtain ⟨before, param, after, rfl, hbefore, hparam⟩ := ih hnodup
      exact ⟨before, param, after ++ [last], by simp, hbefore, hparam⟩

end Closure

namespace Run

/-- How a call ends, by how its body does: the call is left, and a fault that has no active calls
yet is given those in the body. -/
def leave {α : Type} (before inside : CallStack) :
    EStateM.Result Stop State α → EStateM.Result Stop State α
  | .ok a t => .ok a { t with calls := before }
  | .error (.fault f) t => .error (.fault (inside.attach f)) { t with calls := before }
  | .error .outOfFuel t => .error .outOfFuel { t with calls := before }

theorem inCall_eq_leave {α : Type} {name : String} {x : Run α} {s : State} {calls : CallStack}
    (hpush : s.calls.push name = .ok calls) (hcalls : (x.final { s with calls }).calls = calls) :
    inCall name x s = leave s.calls calls (x { s with calls }) := by
  have hpop := CallStack.pop_push hpush
  simp only [inCall, hpush]
  unfold final at hcalls
  cases hx : x { s with calls } with
  | ok a t =>
    simp only [hx] at hcalls
    simp only [leave, hcalls, hpop]
  | error stop t =>
    simp only [hx] at hcalls
    cases stop <;> simp only [leave, hcalls, hpop]

end Run

/-- There is room for one more call. -/
theorem CallStack.push_of_lt {s : CallStack} (h : ∀ max, s.limit = some max → s.depth < max)
    (name : String) : s.push name = .ok { s with frames := name :: s.frames } := by
  cases hpush : s.push name with
  | ok t => rw [(push_eq_ok hpush).1]
  | error f =>
    obtain ⟨max, hmax, hle, -⟩ := push_eq_error hpush
    exact absurd (h max hmax) (Nat.not_lt_of_le hle)

namespace Value

variable {id : FunctionId} {s : State} {calls : CallStack} {args : List Value}

theorem call_function_eq (n : Nat) (id : FunctionId) (args : List Value) (s : State) :
    (function id).call (n + 1) args s =
      inCall (s.heap.closure id).name (do
        let bindings ← ofExcept (Closure.bind (s.heap.closure id).params args .empty)
        let scope ← make (·.newScope ⟨bindings, some (s.heap.closure id).scope⟩)
        evalBody n scope (s.heap.closure id).body .null) s := by
  rw [Value.call]
  rfl

/-- The body of a call runs in the new scope. -/
theorem call_of_bind (hpush : s.calls.push (s.heap.closure id).name = .ok calls)
    {bindings : Table Binding}
    (hbind : Closure.bind (s.heap.closure id).params args .empty = .ok bindings) (n : Nat) :
    (function id).call (n + 1) args s =
      leave s.calls calls (evalBody n s.heap.scopes.size (s.heap.closure id).body .null
        (s.entered (s.heap.closure id) calls bindings)) := by
  have hbody := ((allScoped n).body s.heap.scopes.size (s.heap.closure id).body .null).composed
  rw [call_function_eq, hbind]
  exact inCall_eq_leave hpush (hbody.calls_final (s.entered (s.heap.closure id) calls bindings))

/-- A call whose parameters are not bound leaves the state as it is. -/
theorem call_of_bind_error (hpush : s.calls.push (s.heap.closure id).name = .ok calls) {f : Fault}
    (hbind : Closure.bind (s.heap.closure id).params args .empty = .error f) (n : Nat) :
    (function id).call (n + 1) args s = .error (.fault (calls.attach f)) s := by
  rw [call_function_eq, hbind, inCall_eq_leave hpush rfl]
  rfl

/-- What a call does with its parameters and arguments. -/
theorem call_binds (id : FunctionId) (s : State)
    (hfree : ∀ max, s.calls.limit = some max → s.calls.depth < max) :
    let c := s.heap.closure id
    let calls : CallStack := { s.calls with frames := c.name :: s.calls.frames }
    (c.params.Nodup → ∀ args, ∃ bindings : Table Binding,
      bindings.entries = Closure.parameters c.params args ∧
        ∀ n, (function id).call (n + 1) args s =
          leave s.calls calls
            (evalBody n s.heap.scopes.size c.body .null (s.entered c calls bindings))) ∧
      (∀ args args' : List Value,
        (∀ i < c.params.length, args.getD i .null = args'.getD i .null) →
        ∀ n, (function id).call n args s = (function id).call n args' s) ∧
      (¬ c.params.Nodup → ∃ before param after,
        c.params = before ++ param :: after ∧ before.Nodup ∧ param ∈ before ∧
          ∀ n args, (function id).call (n + 1) args s =
            .error (.fault ⟨.redeclaredVariable param, some calls.frames⟩) s) := by
  intro c calls
  have hpush : s.calls.push c.name = .ok calls := CallStack.push_of_lt hfree c.name
  have hempty (names : List String) :
      ∀ name ∈ names, (Table.empty : Table Binding).contains name = false := fun _ _ => rfl
  refine ⟨fun hnodup args => ?_, fun args args' h n => ?_, fun hnodup => ?_⟩
  · obtain ⟨bindings, hbind, hentries⟩ := Closure.bind_of_nodup hnodup args (hempty c.params)
    exact ⟨bindings, hentries, call_of_bind hpush hbind⟩
  · cases n with
    | zero => rw [Value.call, Value.call]
    | succ n => rw [call_function_eq, call_function_eq, Closure.bind_congr h]
  · obtain ⟨before, param, after, hparams, hbefore, hparam⟩ := Closure.exists_first_repeat hnodup
    refine ⟨before, param, after, hparams, hbefore, hparam, fun n args => ?_⟩
    have hbind : Closure.bind c.params args .empty =
        .error (.ofCause (.redeclaredVariable param)) := by
      rw [hparams]
      exact Closure.bind_of_mem hbefore args (hempty before) (.inl hparam)
    rw [call_of_bind_error hpush hbind]
    rfl

/-- One function is called with too few arguments and with too many, the other one has a parameter
twice; there is room for just one more call. -/
theorem call_binds_uneven :
    let f : Closure := ⟨"f", ["a", "b"], [.expression (.identifier "b")], 0⟩
    let g : Closure := ⟨"g", ["x", "y", "x", "y"], [], 0⟩
    let s : State := ⟨⟨#[⟨.empty, none⟩], #[], #[], #[f, g]⟩, default, ⟨["main"], some 2⟩⟩
    let calls : CallStack := ⟨["f", "main"], some 2⟩
    (∀ max, s.calls.limit = some max → s.calls.depth < max) ∧
      (∃ bindings : Table Binding,
        bindings.entries = [("a", ⟨.number 1.0, .constant⟩), ("b", ⟨.null, .constant⟩)] ∧
          ∀ n, (function 0).call (n + 1) [.number 1.0] s =
            leave s.calls calls (evalBody n 1 f.body .null (s.entered f calls bindings))) ∧
      (∀ n, (function 0).call n [.number 1.0, .null, .null, .number 2.0] s =
        (function 0).call n [.number 1.0] s) ∧
      ∀ n args, (function 1).call (n + 1) args s =
        .error (.fault ⟨.redeclaredVariable "x", some ["g", "main"]⟩) s := by
  intro f g s calls
  have hfree : ∀ max, s.calls.limit = some max → s.calls.depth < max := by
    rintro max ⟨⟩
    exact Nat.lt_succ_self 1
  obtain ⟨hbinds, hagree, -⟩ := call_binds 0 s hfree
  obtain ⟨-, -, hrepeat⟩ := call_binds 1 s hfree
  refine ⟨hfree, hbinds (by decide) [.number 1.0], hagree _ _ ?_, ?_⟩
  · intro i hi
    match i, hi with
    | 0, _ | 1, _ => rfl
  · obtain ⟨before, param, after, hparams, hbefore, hparam, hcall⟩ := hrepeat (by decide)
    have hfirst : param = "x" := by
      change ["x", "y", "x", "y"] = before ++ param :: after at hparams
      rcases before with _ | ⟨_, _ | ⟨_, _ | ⟨_, rest⟩⟩⟩ <;>
        -- The names come in pairs, so the first that repeats an earlier one is the third.
        simp only [List.nil_append, List.cons_append, List.cons.injEq] at hparams
      · cases hparam
      · obtain ⟨rfl, rfl, -⟩ := hparams
        exact absurd hparam (by decide)
      · exact hparams.2.2.1.symm
      · obtain ⟨rfl, -, rfl, -⟩ := hparams
        simp at hbefore
    rw [← hfirst]
    exact hcall

end Value

end DialectScript
