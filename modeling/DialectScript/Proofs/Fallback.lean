import DialectScript.Proofs.Calls
import DialectScript.Proofs.Writable

/-!
# What the evaluators fall back on

The evaluators expect a name behind a dot. They are defined for trees with something else there, and
then they fall back on something (`Fallback`).

* `Run.Idle` — a run that is the same whatever it falls back on.
* `fallbackIdle` — **in what can be written, and with functions that can be written, nothing falls
  back**: the evaluators are the same whatever they fall back on, and leave such functions.

Calls go to functions that were declared at any time before, so this is about runs from a heap in
which the bodies of all functions can be written, and every run keeps it so.
-/

namespace DialectScript

/-! ## Runs that do not fall back -/

namespace Run

variable {α β : Type}

/-- From a heap of functions that can be written, the run is the same whatever it falls back on, and
it leaves such a heap. -/
def Idle (x : Fallback → Run α) : Prop :=
  ∀ s : State, s.heap.Bodies Program.Writable →
    (∀ fallback, x fallback s = x .standard s) ∧
      ((x .standard).final s).heap.Bodies Program.Writable

namespace Idle

theorem bind {x : Fallback → Run α} {f : Fallback → α → Run β} (h : Idle x)
    (hf : ∀ a, Idle fun fallback => f fallback a) :
    Idle fun fallback => x fallback >>= f fallback := by
  intro s hs
  obtain ⟨hsame, hheap⟩ := h s hs
  simp only [Bind.bind, EStateM.bind, hsame, final]
  cases hx : x .standard s with
  | ok a t =>
    rw [final_of_ok hx] at hheap
    exact hf a t hheap
  | error e t =>
    rw [final_of_error hx] at hheap
    exact ⟨fun _ => rfl, hheap⟩

theorem inCall {x : Fallback → Run α} (name : String) (h : Idle x) :
    Idle fun fallback => Run.inCall name (x fallback) := by
  intro s hs
  cases hpush : s.calls.push name with
  | error e =>
    have hfinal : (Run.inCall name (x .standard)).final s = s := by
      simp only [final, Run.inCall, hpush]
    refine ⟨fun _ => by simp only [Run.inCall, hpush], ?_⟩
    rw [hfinal]
    exact hs
  | ok calls =>
    obtain ⟨hsame, hheap⟩ := h { s with calls } hs
    refine ⟨fun _ => by simp only [Run.inCall, hpush, hsame], ?_⟩
    rw [final_inCall_of_push hpush]
    exact hheap

/-- A run that has nothing to fall back on, and changes the heap in this way. -/
theorem of_final {x : Run α} (h : ∀ s, s.heap.Bodies Program.Writable →
    (x.final s).heap.Bodies Program.Writable) : Idle fun _ => x :=
  fun s hs => ⟨fun _ => rfl, h s hs⟩

theorem outOfFuel : Idle fun _ => (throw .outOfFuel : Run α) := of_final fun _ hs => hs

theorem change {f : Heap → Heap}
    (hf : ∀ h, h.Bodies Program.Writable → (f h).Bodies Program.Writable) :
    Idle fun _ => Run.change f :=
  of_final fun s hs => hf s.heap hs

theorem modifyObject (id : ObjectId) (f : Table Value → Table Value) :
    Idle fun _ => Run.change (·.modifyObject id f) :=
  change fun _ hh => hh

theorem make {f : Heap → Nat × Heap}
    (hf : ∀ h, h.Bodies Program.Writable → (f h).2.Bodies Program.Writable) :
    Idle fun _ => Run.make f :=
  of_final fun s hs => hf s.heap hs

theorem newClosure {name : String} {params : List String} {body : List Stmt} {scope : ScopeId}
    (hbody : Program.Writable body) :
    Idle fun _ => Run.make (·.newClosure ⟨name, params, body, scope⟩) :=
  make fun _ hh => hh.newClosure hbody

theorem onScope (name : String) {f : Heap → Except ScopeError Heap}
    (hf : ∀ h h', h.Bodies Program.Writable → f h = .ok h' → h'.Bodies Program.Writable) :
    Idle fun _ => Run.onScope name f := by
  refine of_final fun s hs => ?_
  rcases final_onScope name f s with ⟨heap, hok, hfinal⟩ | hfinal <;> rw [hfinal]
  · exact hf s.heap heap hs hok
  · exact hs

theorem readVariable (scope : ScopeId) (name : String) :
    Idle fun _ => Run.readVariable scope name :=
  of_final fun s hs => by rwa [final_readVariable]

theorem plain {x : Run α} (h : Plain x) : Idle fun _ => x := by
  induction h with
  | value _ | fault _ | fromHeap _ | printLine _ => exact of_final fun _ hs => hs
  | modifyArray id f => exact .change fun _ hs => hs
  | bind _ _ ihx ihf => exact ihx.bind ihf

/-- A name behind a dot is found. -/
theorem propertyKey (name : String) :
    Idle fun _ : Fallback => (Expr.identifier name).propertyKey :=
  plain (.value name)

/-- A function that is taken from the heap can be written. -/
theorem closure {f : Fallback → Closure → Run α} (id : FunctionId)
    (h : ∀ c, Program.Writable c.body → Idle fun fallback => f fallback c) :
    Idle fun fallback => Run.fromHeap (·.closure id) >>= f fallback :=
  fun s hs => h _ (hs.closure (List.forall_mem_nil _) id) s hs

/-- A condition is tested, and each outcome goes on in its own way. -/
theorem test {x f g : Fallback → Run Value} (h : Idle x) (hf : Idle f) (hg : Idle g) :
    Idle fun fallback => x fallback >>= fun v => match v with
      | .boolean true => f fallback
      | .boolean false => g fallback
      | v => Run.fault (.nonBooleanCondition v.type) := by
  refine h.bind fun v => ?_
  match v with
  | .boolean true => exact hf
  | .boolean false => exact hg
  | .null | .number _ | .string _ | .object _ | .array _ | .function _ | .builtin _ =>
    exact .plain (.fault rfl)

end Idle

end Run

open Run

/-! ## The fallback is not reached -/

/-- With this fuel, the evaluators of what can be written are the same whatever they fall back on.
What each of them falls back on is the argument that is not named. -/
structure FallbackIdle (n : Nat) : Prop where
  expr : ∀ scope {e : Expr}, e.Writable → Idle fun _ => e.eval n scope
  assign : ∀ scope {target value : Expr}, target.Writable → value.Writable →
    Idle fun _ => target.evalAssign n scope value
  properties : ∀ scope {ps : List (Property Expr)} entries,
    (∀ key value, .pair key value ∈ ps → value.Writable) →
    Idle fun _ => evalProperties n scope ps entries
  list : ∀ scope {es : List Expr}, (∀ e ∈ es, e.Writable) → Idle fun _ => evalList n scope es
  call : ∀ f args, Idle fun _ => Value.call n f args
  stmt : ∀ scope {s : Stmt}, s.Writable → Idle fun _ => s.eval n scope
  loop : ∀ scope {condition : Expr} {body : List Stmt} last, condition.Writable →
    Program.Writable body → Idle fun _ => evalLoop n scope condition body last
  body : ∀ scope {b : List Stmt} last, Program.Writable b → Idle fun _ => evalBody n scope b last

namespace FallbackIdle

variable {n : Nat}

theorem zero : FallbackIdle 0 where
  expr _ _ _ := by simp only [Expr.eval]; exact .outOfFuel
  assign _ _ _ _ _ := by simp only [Expr.evalAssign]; exact .outOfFuel
  properties _ _ _ _ := by simp only [evalProperties]; exact .outOfFuel
  list _ _ _ := by simp only [evalList]; exact .outOfFuel
  call _ _ := by simp only [Value.call]; exact .outOfFuel
  stmt _ _ _ := by simp only [Stmt.eval]; exact .outOfFuel
  loop _ _ _ _ _ _ := by simp only [evalLoop]; exact .outOfFuel
  body _ _ _ _ := by simp only [evalBody]; exact .outOfFuel

theorem expr_succ (ih : FallbackIdle n) (scope : ScopeId) {e : Expr} (he : e.Writable) :
    Idle fun _ => e.eval (n + 1) scope := by
  cases he with
  | identifier name =>
    simp only [Expr.eval]
    exact .readVariable _ _
  | number _ | string _ =>
    simp only [Expr.eval]
    exact .plain (.value _)
  | @binary operator _ _ hl hr =>
    simp only [Expr.eval]
    exact (ih.expr _ hl).bind fun _ => (ih.expr _ hr).bind fun _ =>
      .plain (.ofExcept (operator.fresh_apply _ _))
  | assign ht hv =>
    simp only [Expr.eval]
    exact ih.assign _ ht hv
  | object hentries =>
    simp only [Expr.eval]
    exact (ih.properties _ _ hentries).bind fun _ =>
      (Idle.make fun _ hh => hh).bind fun _ => .plain (.value _)
  | array helements =>
    simp only [Expr.eval]
    exact (ih.list _ helements).bind fun _ =>
      (Idle.make fun _ hh => hh).bind fun _ => .plain (.value _)
  | dot name ho =>
    simp only [Expr.eval]
    -- What stands behind a dot is a name in these trees, and a name has no use for the fallback.
    refine (ih.expr _ ho).bind fun container => ?_
    cases container with
    | object id => exact (Idle.propertyKey name).bind fun _ => .plain (.readProperty _ _)
    | null | boolean _ | number _ | string _ | array _ | function _ | builtin _ =>
      exact .plain (.fault rfl)
  | bracket ho hi =>
    simp only [Expr.eval]
    refine (ih.expr _ ho).bind fun container => ?_
    cases container with
    | array id => exact (ih.expr _ hi).bind fun _ => .plain (.readElement _ _)
    | null | boolean _ | number _ | string _ | object _ | function _ | builtin _ =>
      exact .plain (.fault rfl)
  | call hc harguments =>
    simp only [Expr.eval]
    exact (ih.expr _ hc).bind fun _ => (ih.list _ harguments).bind fun _ => ih.call _ _

theorem assign_succ (ih : FallbackIdle n) (scope : ScopeId) {target value : Expr}
    (ht : target.Writable) (hv : value.Writable) :
    Idle fun _ => target.evalAssign (n + 1) scope value := by
  have hvalue := ih.expr scope hv
  cases ht with
  | identifier name =>
    simp only [Expr.evalAssign]
    exact hvalue.bind fun _ => (Idle.onScope _ fun _ _ hh ha => hh.assign ha).bind fun _ =>
      .plain (.value _)
  | dot name ho =>
    simp only [Expr.evalAssign]
    refine (ih.expr _ ho).bind fun container => ?_
    cases container with
    | object id =>
      exact (Idle.propertyKey name).bind fun key =>
        (Idle.plain (.readProperty _ _)).bind fun _ => hvalue.bind fun _ =>
          (Idle.plain (.readProperty _ _)).bind fun _ =>
            (Idle.modifyObject _ _).bind fun _ => .plain (.value _)
    | null | boolean _ | number _ | string _ | array _ | function _ | builtin _ =>
      exact .plain (.fault rfl)
  | bracket ho hi =>
    simp only [Expr.evalAssign]
    refine (ih.expr _ ho).bind fun container => ?_
    cases container with
    | array id =>
      exact (ih.expr _ hi).bind fun _ => (Idle.plain (.slotOf _ _)).bind fun _ =>
        hvalue.bind fun _ => .plain <| .bind (.slotOf _ _) fun _ =>
          .bind (.modifyArray _ _) fun _ => .value _
    | null | boolean _ | number _ | string _ | object _ | function _ | builtin _ =>
      exact .plain (.fault rfl)
  | number _ | string _ | binary _ _ | assign _ _ | object _ | array _ | call _ _ =>
    simp only [Expr.evalAssign]
    exact .plain (.fault rfl)

theorem properties_succ (ih : FallbackIdle n) (scope : ScopeId) {ps : List (Property Expr)}
    (entries : Table Value) (hps : ∀ key value, .pair key value ∈ ps → value.Writable) :
    Idle fun _ => evalProperties (n + 1) scope ps entries := by
  match ps with
  | [] =>
    simp only [evalProperties]
    exact .plain (.value _)
  | .shorthand key :: rest =>
    simp only [evalProperties]
    exact (Idle.readVariable _ _).bind fun _ =>
      ih.properties _ _ fun key value hp => hps key value (.tail _ hp)
  | .pair key value :: rest =>
    simp only [evalProperties]
    exact (ih.expr _ (hps key value (.head rest))).bind fun _ =>
      ih.properties _ _ fun key value hp => hps key value (.tail _ hp)

theorem list_succ (ih : FallbackIdle n) (scope : ScopeId) {es : List Expr}
    (hes : ∀ e ∈ es, e.Writable) : Idle fun _ => evalList (n + 1) scope es := by
  cases es with
  | nil =>
    simp only [evalList]
    exact .plain (.value _)
  | cons e rest =>
    simp only [evalList]
    exact (ih.expr _ (hes e (.head rest))).bind fun _ =>
      (ih.list _ fun e he => hes e (.tail _ he)).bind fun _ => .plain (.value _)

/-- The body of a function is not a part of the call, so it is the heap that says it can be
written. -/
theorem call_succ (ih : FallbackIdle n) (f : Value) (args : List Value) :
    Idle fun _ => f.call (n + 1) args := by
  cases f with
  | function id =>
    simp only [Value.call]
    exact .closure id fun c hc => .inCall _ <|
      (Idle.plain (.ofExcept (Closure.fresh_bind _ _ _))).bind fun _ =>
        (Idle.make fun _ hh => hh).bind fun _ => ih.body _ _ hc
  | builtin b =>
    simp only [Value.call]
    exact .plain (.builtin b args)
  | null | boolean _ | number _ | string _ | object _ | array _ =>
    simp only [Value.call]
    exact .plain (.fault rfl)

theorem stmt_succ (ih : FallbackIdle n) (scope : ScopeId) {s : Stmt} (hs : s.Writable) :
    Idle fun _ => s.eval (n + 1) scope := by
  -- The body gets into the heap with its function, so it has to be one of these trees.
  cases hs with
  | letAlone name =>
    simp only [Stmt.eval]
    exact (Idle.onScope _ fun _ _ hh hd => hh.declare hd).bind fun _ => .plain (.value _)
  | declare mutability name hinit =>
    simp only [Stmt.eval]
    exact (ih.expr _ hinit).bind fun _ =>
      (Idle.onScope _ fun _ _ hh hd => hh.declare hd).bind fun _ => .plain (.value _)
  | function name params hbody =>
    simp only [Stmt.eval]
    exact (Idle.newClosure hbody).bind fun _ =>
      (Idle.onScope _ fun _ _ hh hd => hh.declare hd).bind fun _ => .plain (.value _)
  | branch hc hthen =>
    simp only [Stmt.eval]
    exact .test (ih.expr _ hc) (ih.body _ _ hthen) (ih.body _ _ (List.forall_mem_nil _))
  | branchElse hc hthen helse =>
    simp only [Stmt.eval]
    exact .test (ih.expr _ hc) (ih.body _ _ hthen) (ih.body _ _ helse)
  | loop hc hbody =>
    simp only [Stmt.eval]
    exact ih.loop _ _ hc hbody
  | importPath path =>
    simp only [Stmt.eval]
    exact .plain (.value _)
  | expression he =>
    simp only [Stmt.eval]
    exact ih.expr _ he

theorem loop_succ (ih : FallbackIdle n) (scope : ScopeId) {condition : Expr} {body : List Stmt}
    (last : Value) (hc : condition.Writable) (hbody : Program.Writable body) :
    Idle fun _ => evalLoop (n + 1) scope condition body last := by
  simp only [evalLoop]
  exact .test (ih.expr _ hc) ((ih.body _ _ hbody).bind fun _ => ih.loop _ _ hc hbody)
    (.plain (.value _))

theorem body_succ (ih : FallbackIdle n) (scope : ScopeId) {b : List Stmt} (last : Value)
    (hb : Program.Writable b) : Idle fun _ => evalBody (n + 1) scope b last := by
  cases b with
  | nil =>
    simp only [evalBody]
    exact .plain (.value _)
  | cons s rest =>
    simp only [evalBody]
    exact (ih.stmt _ (hb s (.head rest))).bind fun _ =>
      ih.body _ _ fun s hs => hb s (.tail _ hs)

end FallbackIdle

/-- With any fuel, the evaluators of what can be written are the same whatever they fall back on. -/
theorem fallbackIdle (n : Nat) : FallbackIdle n := by
  induction n with
  | zero => exact .zero
  | succ n ih =>
    exact
      { expr := ih.expr_succ
        assign := ih.assign_succ
        properties := ih.properties_succ
        list := ih.list_succ
        call := ih.call_succ
        stmt := ih.stmt_succ
        loop := ih.loop_succ
        body := ih.body_succ }

end DialectScript
