import DialectScript.Proofs.Calls

/-!
# Programs without loops end

**Theorem (`Program.run_terminates`).** Under a limit on the number of active calls, a program
without loops ends, with a value or with a fault, however its functions call each other, if the
functions in the heap are without loops too.

Calls go to whatever function a value denotes, so the syntax of a program does not bound its run.
What does is the room that is left on the call stack: with the calls that are made from a call stack
known to end, evaluation ends by induction on the syntax, and a call ends by induction on the room.
Throughout, the heap holds only functions without loops, and a run leaves the call stack as it was
(`State.Loopless`).
-/

namespace DialectScript

/-! ## Syntax without loops -/

/-- No loop stands in the statement, nor in a function that it declares. -/
inductive Stmt.LoopFree : Stmt → Prop
  | declare (mutability : Mutability) (name : String) (init : Option Expr) :
      LoopFree (.declare mutability name init)
  | function (name : String) (params : List String) {body : List Stmt} :
      (∀ s ∈ body, LoopFree s) → LoopFree (.function name params body)
  | branch (condition : Expr) {thenBody : List Stmt} :
      (∀ s ∈ thenBody, LoopFree s) → LoopFree (.branch condition thenBody none)
  | branchElse (condition : Expr) {thenBody elseBody : List Stmt} :
      (∀ s ∈ thenBody, LoopFree s) → (∀ s ∈ elseBody, LoopFree s) →
      LoopFree (.branch condition thenBody (some elseBody))
  | importPath (path : String) : LoopFree (.importPath path)
  | expression (e : Expr) : LoopFree (.expression e)

/-- No statement of the program has a loop. -/
def Program.LoopFree (program : Program) : Prop := ∀ s ∈ program, s.LoopFree

/-- No function of the heap has a loop. -/
def Heap.LoopFree (h : Heap) : Prop := ∀ c ∈ h.closures, Program.LoopFree c.body

namespace Heap.LoopFree

variable {h h' : Heap}

theorem closure (hh : h.LoopFree) (id : FunctionId) : Program.LoopFree (h.closure id).body :=
  Bodies.closure hh (List.forall_mem_nil _) id

theorem newClosure (hh : h.LoopFree) {c : Closure} (hc : Program.LoopFree c.body) :
    (h.newClosure c).2.LoopFree :=
  Bodies.newClosure hh hc

theorem declare (hh : h.LoopFree) {id : ScopeId} {name : String} {b : Binding}
    (hd : h.declare id name b = .ok h') : h'.LoopFree :=
  Bodies.declare hh hd

theorem assign (hh : h.LoopFree) {id : ScopeId} {name : String} {v : Value}
    (ha : h.assign id name v = .ok h') : h'.LoopFree :=
  Bodies.assign hh ha

end Heap.LoopFree

/-! ## Runs that end -/

/-- The functions of the heap are without loops, and these calls are active. -/
structure State.Loopless (calls : CallStack) (s : State) : Prop where
  heap : s.heap.LoopFree
  calls : s.calls = calls

/-- What a call leaves behind was there before it, but for the call itself. -/
theorem State.Loopless.leave {calls inner : CallStack} {name : String} {s : State}
    (h : s.Loopless inner) (hpush : calls.push name = .ok inner) :
    ({ s with calls := s.calls.pop } : State).Loopless calls where
  heap := h.heap
  calls := by rw [h.calls, CallStack.pop_push hpush]

namespace Run

variable {α β : Type} {calls : CallStack}

/-- An end with a value or with a fault. -/
inductive Ends (calls : CallStack) : EStateM.Result Stop State α → Prop
  | value {s : State} (a : α) : s.Loopless calls → Ends calls (.ok a s)
  | fault {s : State} (f : Fault) : s.Loopless calls → Ends calls (.error (.fault f) s)

/-- With enough fuel, the run ends. -/
def Settles (calls : CallStack) (F : Nat → Run α) : Prop :=
  ∀ s, s.Loopless calls → ∃ r, Ends calls r ∧ ∃ n, ∀ m ≥ n, F m s = r

namespace Settles

/-- A run that needs no fuel. -/
theorem of_ends {x : Run α} (h : ∀ s, s.Loopless calls → Ends calls (x s)) :
    Settles calls fun _ => x :=
  fun s hs => ⟨x s, h s hs, 0, fun _ _ => rfl⟩

theorem readVariable (scope : ScopeId) (name : String) :
    Settles calls fun _ => Run.readVariable scope name := by
  refine of_ends fun s hs => ?_
  unfold Run.readVariable
  cases s.heap.read scope name with
  | ok v => exact .value v hs
  | error e => exact .fault _ hs

theorem change {f : Heap → Heap} (hf : ∀ h, h.LoopFree → (f h).LoopFree) :
    Settles calls fun _ => Run.change f :=
  of_ends fun s hs => .value () ⟨hf s.heap hs.heap, hs.calls⟩

theorem make {f : Heap → Nat × Heap} (hf : ∀ h, h.LoopFree → (f h).2.LoopFree) :
    Settles calls fun _ => Run.make f :=
  of_ends fun s hs => .value _ ⟨hf s.heap hs.heap, hs.calls⟩

theorem onScope (name : String) {f : Heap → Except ScopeError Heap}
    (hf : ∀ h h', h.LoopFree → f h = .ok h' → h'.LoopFree) :
    Settles calls fun _ => Run.onScope name f := by
  refine of_ends fun s hs => ?_
  unfold Run.onScope
  cases h : f s.heap with
  | ok heap => exact .value () ⟨hf _ _ hs.heap h, hs.calls⟩
  | error e => exact .fault _ hs

/-- The first unit of fuel leads into what follows. -/
theorem succ {F G : Nat → Run α} (hF : ∀ n, F (n + 1) = G n) (h : Settles calls G) :
    Settles calls F := by
  intro s hs
  obtain ⟨r, hr, n, hn⟩ := h s hs
  refine ⟨r, hr, n + 1, fun m hm => ?_⟩
  obtain ⟨m, rfl⟩ := Nat.exists_eq_add_of_le' (Nat.le_trans (Nat.le_add_left 1 n) hm)
  rw [hF]
  exact hn m (Nat.le_of_succ_le_succ hm)

theorem bind {F : Nat → Run α} {G : α → Nat → Run β} (h : Settles calls F)
    (hG : ∀ a, Settles calls (G a)) : Settles calls fun n => F n >>= fun a => G a n := by
  intro s hs
  obtain ⟨r, hr, n, hn⟩ := h s hs
  cases hr with
  | @fault t f ht =>
    refine ⟨_, .fault f ht, n, fun m hm => ?_⟩
    simp only [Bind.bind, EStateM.bind, hn m hm]
  | @value t a ht =>
    obtain ⟨r', hr', n', hn'⟩ := hG a t ht
    refine ⟨r', hr', max n n', fun m hm => ?_⟩
    have hfirst := hn m (Nat.le_trans (Nat.le_max_left n n') hm)
    simp only [Bind.bind, EStateM.bind, hfirst]
    exact hn' m (Nat.le_trans (Nat.le_max_right n n') hm)

/-- A function that is taken from the heap is without loops. -/
theorem closure {id : FunctionId} {G : Closure → Nat → Run α}
    (hG : ∀ c, Program.LoopFree c.body → Settles calls (G c)) :
    Settles calls fun n => Run.fromHeap (·.closure id) >>= fun c => G c n :=
  fun s hs => hG _ (hs.heap.closure id) s hs

/-- A call ends if its body does, with the call active, or if it is refused. -/
theorem inCall {name : String} {F : Nat → Run α}
    (h : ∀ inner, calls.push name = .ok inner → Settles inner F) :
    Settles calls fun n => Run.inCall name (F n) := by
  intro s hs
  obtain ⟨hheap, rfl⟩ := hs
  cases hpush : s.calls.push name with
  | error f =>
    refine ⟨_, .fault f ⟨hheap, rfl⟩, 0, fun m _ => ?_⟩
    simp only [Run.inCall, hpush]
  | ok inner =>
    obtain ⟨r, hr, n, hn⟩ := h inner hpush { s with calls := inner } ⟨hheap, rfl⟩
    cases hr with
    | @value t a ht =>
      refine ⟨_, .value a (ht.leave hpush), n, fun m hm => ?_⟩
      simp only [Run.inCall, hpush, hn m hm]
    | @fault t f ht =>
      refine ⟨_, .fault (t.calls.attach f) (ht.leave hpush), n, fun m hm => ?_⟩
      simp only [Run.inCall, hpush, hn m hm]

theorem plain {x : Run α} (h : Plain x) : Settles calls fun _ => x := by
  induction h with
  | value a => exact of_ends fun _ hs => .value a hs
  | fault _ => exact of_ends fun _ hs => .fault _ hs
  | fromHeap f => exact of_ends fun _ hs => .value _ hs
  | printLine line => exact of_ends fun _ hs => .value () ⟨hs.heap, hs.calls⟩
  | modifyArray id f => exact .change fun _ h => h
  | bind _ _ ihx ihf => exact .bind ihx ihf

end Settles

/-! ## Evaluations end if calls do -/

theorem settles_body {scope : ScopeId} {body : List Stmt}
    (hbody : ∀ s ∈ body, Settles calls fun n => Stmt.eval n scope s) (last : Value) :
    Settles calls fun n => evalBody n scope body last := by
  induction body generalizing last with
  | nil => exact .succ (fun n => by rw [evalBody]) (.plain (.value _))
  | cons s rest ih =>
    refine .succ (fun n => by rw [evalBody]) <| .bind (hbody s (.head rest)) fun v => ?_
    exact ih (fun s hs => hbody s (.tail _ hs)) v

/-- A condition is tested, and each outcome goes on in its own way. -/
theorem settles_test {F G H : Nat → Run Value} (h : Settles calls F) (hG : Settles calls G)
    (hH : Settles calls H) :
    Settles calls fun n => F n >>= fun v => match v with
      | .boolean true => G n
      | .boolean false => H n
      | v => Run.fault (.nonBooleanCondition v.type) := by
  refine .bind h fun v => ?_
  match v with
  | .boolean true => exact hG
  | .boolean false => exact hH
  | .null | .number _ | .string _ | .object _ | .array _ | .function _ | .builtin _ =>
    exact .plain (.fault rfl)

/-- Every call that is made from this call stack ends. -/
def CallsSettle (calls : CallStack) : Prop :=
  ∀ f args, Settles calls fun n => Value.call n f args

mutual

theorem settles_expr (hcall : CallsSettle calls) (scope : ScopeId) :
    ∀ e : Expr, Settles calls fun n => e.eval n scope
  | .identifier name => .succ (fun n => by rw [Expr.eval]) (.readVariable scope name)
  | .number x => .succ (fun n => by rw [Expr.eval]) (.plain (.value _))
  | .string text => .succ (fun n => by rw [Expr.eval]) (.plain (.value _))
  | .binary operator l r =>
    .succ (fun n => by rw [Expr.eval]) <| .bind (settles_expr hcall scope l) fun _ =>
      .bind (settles_expr hcall scope r) fun _ => .plain (.ofExcept (operator.fresh_apply _ _))
  | .assign target value =>
    .succ (fun n => by rw [Expr.eval]) <|
      settles_assign hcall scope target (settles_expr hcall scope value)
  | .object properties =>
    .succ (fun n => by rw [Expr.eval]) <|
      .bind (settles_properties hcall scope properties .empty) fun _ =>
        .bind (.make fun _ h => h) fun _ => .plain (.value _)
  | .array elements =>
    .succ (fun n => by rw [Expr.eval]) <| .bind (settles_list hcall scope elements) fun _ =>
      .bind (.make fun _ h => h) fun _ => .plain (.value _)
  | .member object property access => by
    have hobject := settles_expr hcall scope object
    have hproperty := settles_expr hcall scope property
    refine .succ (fun n => by rw [Expr.eval]) <| .bind hobject fun container => ?_
    cases container with
    | object id =>
      cases access with
      | dot =>
        exact .plain (.bind (.propertyKey property) fun _ => .readProperty _ _)
      | bracket => exact .plain (.fault rfl)
    | array id =>
      cases access with
      | dot => exact .plain (.fault rfl)
      | bracket => exact .bind hproperty fun _ => .plain (.readElement _ _)
    | null | boolean _ | number _ | string _ | function _ | builtin _ => exact .plain (.fault rfl)
  | .call callee arguments =>
    .succ (fun n => by rw [Expr.eval]) <| .bind (settles_expr hcall scope callee) fun _ =>
      .bind (settles_list hcall scope arguments) fun _ => hcall _ _

theorem settles_assign (hcall : CallsSettle calls) (scope : ScopeId) :
    ∀ (target : Expr) {value : Expr},
    (Settles calls fun n => value.eval n scope) →
    Settles calls fun n => target.evalAssign n scope value
  | .identifier name, _, hvalue =>
    .succ (fun n => by rw [Expr.evalAssign]) <| .bind hvalue fun _ =>
      .bind (.onScope _ fun _ _ hh ha => hh.assign ha) fun _ => .plain (.value _)
  | .member object property access, _, hvalue => by
    have hobject := settles_expr hcall scope object
    have hproperty := settles_expr hcall scope property
    refine .succ (fun n => by rw [Expr.evalAssign]) <| .bind hobject fun container => ?_
    cases container with
    | object id =>
      cases access with
      | dot =>
        exact .bind (.plain (.propertyKey property)) fun _ =>
          .bind (.plain (.readProperty _ _)) fun _ => .bind hvalue fun _ =>
            .bind (.plain (.readProperty _ _)) fun _ =>
              .bind (.change fun _ h => h) fun _ => .plain (.value _)
      | bracket => exact .plain (.fault rfl)
    | array id =>
      cases access with
      | dot => exact .plain (.fault rfl)
      | bracket =>
        exact .bind hproperty fun _ => .bind (.plain (.slotOf _ _)) fun _ =>
          .bind hvalue fun _ => .plain <| .bind (.slotOf _ _) fun _ =>
            .bind (.modifyArray _ _) fun _ => .value _
    | null | boolean _ | number _ | string _ | function _ | builtin _ => exact .plain (.fault rfl)
  | .number _, _, _ | .string _, _, _ | .binary _ _ _, _, _ | .assign _ _, _, _ | .object _, _, _
  | .array _, _, _ | .call _ _, _, _ =>
    .succ (fun n => by simp only [Expr.evalAssign]; rfl) (.plain (.fault rfl))

theorem settles_properties (hcall : CallsSettle calls) (scope : ScopeId) :
    ∀ (ps : List (Property Expr)) (entries : Table Value),
    Settles calls fun n => evalProperties n scope ps entries
  | [], entries => .succ (fun n => by rw [evalProperties]) (.plain (.value _))
  | .shorthand key :: rest, entries =>
    .succ (fun n => by rw [evalProperties]) <| .bind (.readVariable scope key) fun _ =>
      settles_properties hcall scope rest _
  | .pair key value :: rest, entries =>
    .succ (fun n => by rw [evalProperties]) <| .bind (settles_expr hcall scope value) fun _ =>
      settles_properties hcall scope rest _

theorem settles_list (hcall : CallsSettle calls) (scope : ScopeId) :
    ∀ es : List Expr, Settles calls fun n => evalList n scope es
  | [] => .succ (fun n => by rw [evalList]) (.plain (.value _))
  | e :: rest =>
    .succ (fun n => by rw [evalList]) <| .bind (settles_expr hcall scope e) fun _ =>
      .bind (settles_list hcall scope rest) fun _ => .plain (.value _)

end

theorem settles_stmt (hcall : CallsSettle calls) (scope : ScopeId) {s : Stmt} (hs : s.LoopFree) :
    Settles calls fun n => s.eval n scope := by
  induction hs with
  | declare mutability name init =>
    cases init with
    | none =>
      refine .succ (fun n => by rw [Stmt.eval]) ?_
      exact .bind (.onScope _ fun _ _ hh hd => hh.declare hd) fun _ => .plain (.value _)
    | some init =>
      refine .succ (fun n => by rw [Stmt.eval]) <| .bind (settles_expr hcall scope init) fun _ => ?_
      exact .bind (.onScope _ fun _ _ hh hd => hh.declare hd) fun _ => .plain (.value _)
  | function name params hbody _ =>
    refine .succ (fun n => by rw [Stmt.eval]) <| .bind (.make ?_) fun _ => ?_
    · exact fun _ hh => hh.newClosure hbody
    · exact .bind (.onScope _ fun _ _ hh hd => hh.declare hd) fun _ => .plain (.value _)
  | branch condition _ ih =>
    refine .succ (fun n => by rw [Stmt.eval]) ?_
    exact settles_test (settles_expr hcall scope condition) (settles_body ih .null)
      (settles_body (List.forall_mem_nil _) .null)
  | branchElse condition _ _ ih ih' =>
    refine .succ (fun n => by rw [Stmt.eval]) ?_
    exact settles_test (settles_expr hcall scope condition) (settles_body ih .null)
      (settles_body ih' .null)
  | importPath path => exact .succ (fun n => by rw [Stmt.eval]) (.plain (.value _))
  | expression e => exact .succ (fun n => by rw [Stmt.eval]) (settles_expr hcall scope e)

/-- A call ends if those that are made inside it do. -/
theorem callsSettle_of_inner {calls : CallStack}
    (h : ∀ name inner, calls.push name = .ok inner → CallsSettle inner) : CallsSettle calls := by
  intro f args
  cases f with
  | function id =>
    refine .succ (fun n => by rw [Value.call]) <| .closure fun c hc => .inCall fun inner hpush => ?_
    have hbody scope : ∀ s ∈ c.body, Settles inner fun n => Stmt.eval n scope s :=
      fun s hs => settles_stmt (h c.name inner hpush) scope (hc s hs)
    exact .bind (.plain (.ofExcept (Closure.fresh_bind _ _ _))) fun _ =>
      .bind (.make fun _ h => h) fun scope => settles_body (hbody scope) .null
  | builtin b => exact .succ (fun n => by rw [Value.call]) (.plain (.builtin b args))
  | null | boolean _ | number _ | string _ | object _ | array _ =>
    exact .succ (fun n => by simp only [Value.call]; rfl) (.plain (.fault rfl))

/-- A limit leaves room for finitely many calls inside each other. -/
theorem callsSettle {max : Nat} (room : Nat) {calls : CallStack} (hlimit : calls.limit = some max)
    (hroom : max ≤ calls.depth + room) : CallsSettle calls := by
  induction room generalizing calls with
  | zero =>
    refine callsSettle_of_inner fun name inner hpush => ?_
    have hlt := (CallStack.push_eq_ok hpush).2 max hlimit
    exact absurd hroom (Nat.not_le.2 hlt)
  | succ room ih =>
    refine callsSettle_of_inner fun name inner hpush => ?_
    obtain ⟨rfl, -⟩ := CallStack.push_eq_ok hpush
    refine ih hlimit (Nat.le_trans hroom (Nat.le_of_eq ?_))
    rw [CallStack.depth, CallStack.depth, List.length_cons, Nat.add_assoc, Nat.add_comm 1]

end Run

/-! ## Programs -/

/-- Under a limit on the active calls, a program without loops ends with a value or with a fault,
and more fuel does not change how. -/
theorem Program.run_terminates {program : Program} (hprogram : program.LoopFree) {s : State}
    (hheap : s.heap.LoopFree) {max : Nat} (hlimit : s.calls.limit = some max) (scope : ScopeId) :
    ∃ n, (∀ t, program.run n scope s ≠ .error .outOfFuel t) ∧
      ∀ m ≥ n, program.run m scope s = program.run n scope s := by
  have hcalls : Run.CallsSettle s.calls := Run.callsSettle max hlimit (Nat.le_add_left _ _)
  have hbody : ∀ st ∈ program, Run.Settles s.calls fun n => Stmt.eval n scope st :=
    fun st hst => Run.settles_stmt hcalls scope (hprogram st hst)
  obtain ⟨r, hr, n, hn⟩ := Run.settles_body hbody .null s ⟨hheap, rfl⟩
  refine ⟨n, fun t ht => ?_, fun m hm => (hn m hm).trans (hn n (Nat.le_refl n)).symm⟩
  have hend : r = .error .outOfFuel t := (hn n (Nat.le_refl n)).symm.trans ht
  rw [hend] at hr
  cases hr

/-- A function that calls the function it is given calls itself, as often as the limit allows. -/
theorem Program.run_terminates_self_application :
    let body : Program := [.expression (.call (.identifier "x") [.identifier "x"])]
    let program : Program := [.function "f" ["x"] body,
      .expression (.call (.identifier "f") [.identifier "f"])]
    let s : State := ⟨Heap.empty.global.2, .silent, .empty (some 1000)⟩
    ∃ n, (∀ t, program.run n 0 s ≠ .error .outOfFuel t) ∧
      ∀ m ≥ n, program.run m 0 s = program.run n 0 s := by
  intro body program s
  have hbody : body.LoopFree := by
    intro st hst
    rw [List.mem_singleton.1 hst]
    exact .expression _
  have hprogram : program.LoopFree := by
    intro st hst
    rcases List.mem_cons.1 hst with rfl | hst
    · exact .function _ _ hbody
    · rw [List.mem_singleton.1 hst]
      exact .expression _
  exact run_terminates hprogram (fun c hc => absurd hc (Array.not_mem_empty c)) rfl 0

end DialectScript
