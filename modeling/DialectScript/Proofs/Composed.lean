import DialectScript.Run.Eval

/-!
# What evaluations are composed of

Every evaluation is composed of a few basic runs: looking something up, changing the heap, making
a cell, binding a name, printing a line, and ending with a value, a fault or no fuel. There are two
ways to compose runs, one after another and inside a call.

* `Run.Plain` — the runs that do no more than a built-in function may.
* `Run.Scoped` — the runs that are composed of what an evaluation does in a given scope: every
  change of the heap is named, and what a called function does is done in the scope of its call.
* `Run.allScoped` — **every evaluator is one of them**, for every amount of fuel.
* `Run.Composed` — the same with the changes of the heap left open, for facts that do not depend
  on them.

What the basic runs have and the two ways of composing keep, every evaluation has; the proof of it
is an induction on `Scoped` or `Composed`, and need not look at the evaluators again.
-/

namespace DialectScript

/-! ## Faults that an evaluation finds -/

/-- Whether a cause is a call that was refused. Only the call stack refuses calls. -/
def FaultCause.isOverflow : FaultCause → Bool
  | .stackOverflow _ => true
  | _ => false

@[simp] theorem FaultCause.isOverflow_ofScopeError (name : String) (e : ScopeError) :
    (ofScopeError name e).isOverflow = false := by
  cases e <;> rfl

/-- A result, or a fault that has not left a call yet and is not about calls. -/
inductive Fresh {α : Type} : Except Fault α → Prop
  | ok (a : α) : Fresh (.ok a)
  | error {cause : FaultCause} : cause.isOverflow = false → Fresh (.error (.ofCause cause))

theorem Operator.fresh_apply (operator : Operator) (l r : Value) :
    Fresh (operator.apply l r) := by
  unfold Operator.apply
  cases operator.result? l r with
  | some v => exact .ok v
  | none => exact .error rfl

theorem Value.fresh_slot (index : Value) (length : Nat) : Fresh (index.slot length) := by
  unfold Value.slot
  split
  · split
    · split
      · exact .ok _
      · exact .error rfl
    · exact .error rfl
  · exact .error rfl

theorem Expr.fresh_propertyName (e : Expr) : Fresh e.propertyName := by
  unfold Expr.propertyName
  split
  · exact .ok _
  · exact .error rfl

theorem Closure.fresh_bind (params : List String) (args : List Value) (bindings : Table Binding) :
    Fresh (Closure.bind params args bindings) := by
  induction params generalizing args bindings with
  | nil => exact .ok bindings
  | cons param params ih =>
    unfold Closure.bind
    split
    · exact .error rfl
    · exact ih _ _

namespace Run

/-! ## Plain runs -/

/-- Runs that do no more than a built-in function may: look at the heap, change an array, print, and
end with a value or a fault. -/
inductive Plain : {α : Type} → Run α → Prop
  | value {α : Type} (a : α) : Plain (pure a)
  | fault {α : Type} {cause : FaultCause} :
      cause.isOverflow = false → Plain (Run.fault cause : Run α)
  | fromHeap {α : Type} (f : Heap → α) : Plain (Run.fromHeap f)
  | printLine (line : String) : Plain (Run.printLine line)
  | modifyArray (id : ArrayId) (f : Array Value → Array Value) :
      Plain (change (·.modifyArray id f))
  | bind {α β : Type} {x : Run α} {f : α → Run β} :
      Plain x → (∀ a, Plain (f a)) → Plain (x >>= f)

namespace Plain

variable {α : Type}

theorem ofExcept {r : Except Fault α} (h : Fresh r) : Plain (Run.ofExcept r) := by
  cases h with
  | ok a => exact .value a
  | error h => exact .fault h

theorem propertyKey (property : Expr) : Plain property.propertyKey := by
  rw [property.propertyKey_standard]
  exact .ofExcept property.fresh_propertyName

theorem readProperty (id : ObjectId) (key : String) : Plain (Run.readProperty id key) := by
  refine .bind (.fromHeap _) fun v => ?_
  cases v with
  | some v => exact .value v
  | none => exact .fault rfl

theorem slotOf (id : ArrayId) (index : Value) : Plain (Run.slotOf id index) :=
  .bind (.fromHeap _) fun length => .ofExcept (index.fresh_slot length)

theorem readElement (id : ArrayId) (index : Value) : Plain (Run.readElement id index) :=
  .bind (.slotOf id index) fun _ => .fromHeap _

theorem arrayArgument (b : Builtin) (args : List Value) : Plain (b.arrayArgument args) := by
  match args with
  | [] => exact .fault rfl
  | .array id :: _ => exact .value id
  | .null :: _ | .boolean _ :: _ | .number _ :: _ | .string _ :: _ | .object _ :: _
  | .function _ :: _ | .builtin _ :: _ => exact .fault rfl

theorem builtin (b : Builtin) (args : List Value) : Plain (b.call args) := by
  cases b with
  | print => exact .bind (.fromHeap _) fun _ => .bind (.printLine _) fun _ => .value _
  | not =>
    unfold Builtin.call
    dsimp only
    split
    · exact .value _
    · exact .fault rfl
    · exact .fault rfl
  | str =>
    unfold Builtin.call
    dsimp only
    split
    · exact .bind (.fromHeap _) fun _ => .value _
    · exact .fault rfl
  | length => exact .bind (.arrayArgument _ _) fun _ => .fromHeap _
  | push | unshift =>
    exact .bind (.arrayArgument _ _) fun _ => .bind (.modifyArray _ _) fun _ => .fromHeap _
  | pop | shift =>
    exact .bind (.arrayArgument _ _) fun _ => .bind (.fromHeap _) fun _ =>
      .bind (.modifyArray _ _) fun _ => .value _

end Plain

/-! ## Runs in a scope -/

section

variable {α : Type}

/-- Call a function: the body is run inside the call, in a new scope that holds the arguments. -/
def apply (id : FunctionId) (args : List Value) (body : Closure → ScopeId → Run α) : Run α := do
  let c ← fromHeap (·.closure id)
  inCall c.name do
    let bindings ← ofExcept (Closure.bind c.params args .empty)
    let scope ← make (·.newScope ⟨bindings, some c.scope⟩)
    body c scope

/-- Give a property that is there a new value. -/
def store (id : ObjectId) (key : String) (v : Value) : Run Value := do
  let _ ← readProperty id key
  change (·.modifyObject id (·.insert key v))
  return v

/-- Give a property that is there the value of a run, if it still is there then. -/
def overwrite (id : ObjectId) (key : String) (x : Run Value) : Run Value := do
  let _ ← readProperty id key
  let v ← x
  store id key v

end

/-- Runs that are composed of what an evaluation does in a scope. -/
inductive Scoped : {α : Type} → ScopeId → Run α → Prop
  | plain {α : Type} {scope : ScopeId} {x : Run α} : Plain x → Scoped scope x
  | outOfFuel {α : Type} {scope : ScopeId} : Scoped scope (throw .outOfFuel : Run α)
  | readVariable {scope : ScopeId} (name : String) : Scoped scope (Run.readVariable scope name)
  | declare {scope : ScopeId} (name : String) (b : Binding) :
      Scoped scope (onScope name (·.declare scope name b))
  | assign {scope : ScopeId} (name : String) (v : Value) :
      Scoped scope (onScope name (·.assign scope name v))
  | newObject {scope : ScopeId} (properties : Table Value) :
      Scoped scope (make (·.newObject properties))
  | newArray {scope : ScopeId} (elements : Array Value) : Scoped scope (make (·.newArray elements))
  /-- A function is declared in the scope that the evaluation is in. -/
  | newClosure {scope : ScopeId} (name : String) (params : List String) (body : List Stmt) :
      Scoped scope (make (·.newClosure ⟨name, params, body, scope⟩))
  | overwrite {scope : ScopeId} (id : ObjectId) (key : String) {x : Run Value} :
      Scoped scope x → Scoped scope (Run.overwrite id key x)
  | bind {α β : Type} {scope : ScopeId} {x : Run α} {f : α → Run β} :
      Scoped scope x → (∀ a, Scoped scope (f a)) → Scoped scope (x >>= f)
  | apply {α : Type} {scope : ScopeId} (id : FunctionId) (args : List Value)
      {body : Closure → ScopeId → Run α} :
      (∀ c inner, Scoped inner (body c inner)) → Scoped scope (Run.apply id args body)

namespace Scoped

variable {α : Type} {scope : ScopeId}

theorem value (a : α) : Scoped scope (pure a : Run α) := .plain (.value a)

theorem fault {cause : FaultCause} (h : cause.isOverflow = false) :
    Scoped scope (Run.fault cause : Run α) :=
  .plain (.fault h)

end Scoped

/-! ## Evaluators -/

/-- With this fuel, every evaluator is composed of what it may do in its scope. A call may be made
from any scope. -/
structure AllScoped (n : Nat) : Prop where
  expr : ∀ scope e, Scoped scope (Expr.eval n scope e)
  assign : ∀ scope target value, Scoped scope (Expr.evalAssign n scope target value)
  properties : ∀ scope ps entries, Scoped scope (evalProperties n scope ps entries)
  list : ∀ scope es, Scoped scope (evalList n scope es)
  call : ∀ scope f args, Scoped scope (Value.call n f args)
  stmt : ∀ scope s, Scoped scope (Stmt.eval n scope s)
  loop : ∀ scope c body last, Scoped scope (evalLoop n scope c body last)
  body : ∀ scope b last, Scoped scope (evalBody n scope b last)

namespace AllScoped

theorem zero : AllScoped 0 where
  expr _ _ := by rw [Expr.eval]; exact .outOfFuel
  assign _ _ _ := by rw [Expr.evalAssign]; exact .outOfFuel
  properties _ _ _ := by rw [evalProperties]; exact .outOfFuel
  list _ _ := by rw [evalList]; exact .outOfFuel
  call _ _ _ := by rw [Value.call]; exact .outOfFuel
  stmt _ _ := by rw [Stmt.eval]; exact .outOfFuel
  loop _ _ _ _ := by rw [evalLoop]; exact .outOfFuel
  body _ _ _ := by rw [evalBody]; exact .outOfFuel

variable {n : Nat}

theorem expr_succ (ih : AllScoped n) (scope : ScopeId) (e : Expr) :
    Scoped scope (Expr.eval (n + 1) scope e) := by
  cases e with
  | identifier name =>
    rw [Expr.eval]
    exact .readVariable name
  | number _ | string _ =>
    rw [Expr.eval]
    exact .value _
  | binary operator l r =>
    rw [Expr.eval]
    exact .bind (ih.expr _ _) fun _ => .bind (ih.expr _ _) fun _ =>
      .plain (.ofExcept (operator.fresh_apply _ _))
  | assign target value =>
    rw [Expr.eval]
    exact ih.assign _ _ _
  | object properties =>
    rw [Expr.eval]
    exact .bind (ih.properties _ _ _) fun _ => .bind (.newObject _) fun _ => .value _
  | array elements =>
    rw [Expr.eval]
    exact .bind (ih.list _ _) fun _ => .bind (.newArray _) fun _ => .value _
  | member object property access =>
    rw [Expr.eval]
    refine .bind (ih.expr _ _) fun container => ?_
    cases container with
    | object id =>
      cases access with
      | dot =>
        exact .plain (.bind (.propertyKey property) fun _ => .readProperty _ _)
      | bracket => exact .fault rfl
    | array id =>
      cases access with
      | dot => exact .fault rfl
      | bracket => exact .bind (ih.expr _ _) fun _ => .plain (.readElement _ _)
    | null | boolean _ | number _ | string _ | function _ | builtin _ => exact .fault rfl
  | call callee arguments =>
    rw [Expr.eval]
    exact .bind (ih.expr _ _) fun _ => .bind (ih.list _ _) fun _ => ih.call _ _ _

theorem assign_succ (ih : AllScoped n) (scope : ScopeId) (target value : Expr) :
    Scoped scope (Expr.evalAssign (n + 1) scope target value) := by
  cases target with
  | identifier name =>
    rw [Expr.evalAssign]
    exact .bind (ih.expr _ _) fun _ => .bind (.assign _ _) fun _ => .value _
  | member object property access =>
    rw [Expr.evalAssign]
    refine .bind (ih.expr _ _) fun container => ?_
    cases container with
    | object id =>
      cases access with
      | dot =>
        exact .bind (.plain (.propertyKey property)) fun key =>
          .overwrite id key (ih.expr _ _)
      | bracket => exact .fault rfl
    | array id =>
      cases access with
      | dot => exact .fault rfl
      | bracket =>
        -- The value may move the place away, so it is looked for once more.
        exact .bind (ih.expr _ _) fun _ => .bind (.plain (.slotOf _ _)) fun _ =>
          .bind (ih.expr _ _) fun _ => .plain <| .bind (.slotOf _ _) fun _ =>
            .bind (.modifyArray _ _) fun _ => .value _
    | null | boolean _ | number _ | string _ | function _ | builtin _ => exact .fault rfl
  | number _ | string _ | binary _ _ _ | assign _ _ | object _ | array _ | call _ _ =>
    simp only [Expr.evalAssign]
    exact .fault rfl

theorem properties_succ (ih : AllScoped n) (scope : ScopeId) (ps : List (Property Expr))
    (entries : Table Value) : Scoped scope (evalProperties (n + 1) scope ps entries) := by
  match ps with
  | [] =>
    rw [evalProperties]
    exact .value _
  | .shorthand key :: rest =>
    rw [evalProperties]
    exact .bind (.readVariable _) fun _ => ih.properties _ _ _
  | .pair key value :: rest =>
    rw [evalProperties]
    exact .bind (ih.expr _ _) fun _ => ih.properties _ _ _

theorem list_succ (ih : AllScoped n) (scope : ScopeId) (es : List Expr) :
    Scoped scope (evalList (n + 1) scope es) := by
  cases es with
  | nil =>
    rw [evalList]
    exact .value _
  | cons e rest =>
    rw [evalList]
    exact .bind (ih.expr _ _) fun _ => .bind (ih.list _ _) fun _ => .value _

theorem call_succ (ih : AllScoped n) (scope : ScopeId) (f : Value) (args : List Value) :
    Scoped scope (Value.call (n + 1) f args) := by
  cases f with
  | function id =>
    rw [Value.call]
    exact .apply id args fun _ _ => ih.body _ _ _
  | builtin b =>
    rw [Value.call]
    exact .plain (.builtin b args)
  | null | boolean _ | number _ | string _ | object _ | array _ =>
    simp only [Value.call]
    exact .fault rfl

/-- A condition is tested, and each outcome goes on in its own way. -/
theorem test {scope : ScopeId} {x f g : Run Value} (h : Scoped scope x) (hf : Scoped scope f)
    (hg : Scoped scope g) :
    Scoped scope (x >>= fun v => match v with
      | .boolean true => f
      | .boolean false => g
      | v => Run.fault (.nonBooleanCondition v.type)) := by
  refine .bind h fun v => ?_
  match v with
  | .boolean true => exact hf
  | .boolean false => exact hg
  | .null | .number _ | .string _ | .object _ | .array _ | .function _ | .builtin _ =>
    exact .fault rfl

theorem stmt_succ (ih : AllScoped n) (scope : ScopeId) (s : Stmt) :
    Scoped scope (Stmt.eval (n + 1) scope s) := by
  match s with
  | .declare _ _ none =>
    rw [Stmt.eval]
    exact .bind (.declare _ _) fun _ => .value _
  | .declare _ _ (some init) =>
    rw [Stmt.eval]
    exact .bind (ih.expr _ _) fun _ => .bind (.declare _ _) fun _ => .value _
  | .function _ _ _ =>
    rw [Stmt.eval]
    exact .bind (.newClosure _ _ _) fun _ => .bind (.declare _ _) fun _ => .value _
  | .branch condition thenBody elseBody =>
    rw [Stmt.eval]
    exact test (ih.expr _ _) (ih.body _ _ _) (ih.body _ _ _)
  | .loop condition body =>
    rw [Stmt.eval]
    exact ih.loop _ _ _ _
  | .importPath _ =>
    rw [Stmt.eval]
    exact .value _
  | .expression e =>
    rw [Stmt.eval]
    exact ih.expr _ _

theorem loop_succ (ih : AllScoped n) (scope : ScopeId) (condition : Expr) (body : List Stmt)
    (last : Value) : Scoped scope (evalLoop (n + 1) scope condition body last) := by
  rw [evalLoop]
  exact test (ih.expr _ _) (.bind (ih.body _ _ _) fun _ => ih.loop _ _ _ _) (.value _)

theorem body_succ (ih : AllScoped n) (scope : ScopeId) (b : List Stmt) (last : Value) :
    Scoped scope (evalBody (n + 1) scope b last) := by
  cases b with
  | nil =>
    rw [evalBody]
    exact .value _
  | cons s rest =>
    rw [evalBody]
    exact .bind (ih.stmt _ _) fun _ => ih.body _ _ _

end AllScoped

/-- With any fuel, every evaluator is composed of what it may do in its scope. -/
theorem allScoped (n : Nat) : AllScoped n := by
  induction n with
  | zero => exact .zero
  | succ n ih =>
    exact
      { expr := ih.expr_succ
        assign := ih.assign_succ
        properties := ih.properties_succ
        list := ih.list_succ
        call := ih.call_succ
        stmt := ih.stmt_succ
        loop := ih.loop_succ
        body := ih.body_succ }

/-! ## The changes of the heap left open -/

/-- Runs that are composed of the basic ones. -/
inductive Composed : {α : Type} → Run α → Prop
  | value {α : Type} (a : α) : Composed (pure a)
  | stop {α : Type} (e : Stop) : Composed (throw e : Run α)
  | fromHeap {α : Type} (f : Heap → α) : Composed (Run.fromHeap f)
  | change (f : Heap → Heap) : Composed (Run.change f)
  | make (f : Heap → Nat × Heap) : Composed (Run.make f)
  | onScope (name : String) (f : Heap → Except ScopeError Heap) : Composed (Run.onScope name f)
  | printLine (line : String) : Composed (Run.printLine line)
  | readVariable (scope : ScopeId) (name : String) : Composed (Run.readVariable scope name)
  | bind {α β : Type} {x : Run α} {f : α → Run β} :
      Composed x → (∀ a, Composed (f a)) → Composed (x >>= f)
  | inCall {α : Type} (name : String) {body : Run α} :
      Composed body → Composed (Run.inCall name body)

theorem Plain.composed {α : Type} {x : Run α} (h : Plain x) : Composed x := by
  induction h with
  | value a => exact .value a
  | fault _ => exact .stop _
  | fromHeap f => exact .fromHeap f
  | printLine line => exact .printLine line
  | modifyArray id f => exact .change _
  | bind _ _ ihx ihf => exact .bind ihx ihf

theorem Scoped.composed {α : Type} {scope : ScopeId} {x : Run α} (h : Scoped scope x) :
    Composed x := by
  induction h with
  | plain hx => exact hx.composed
  | outOfFuel => exact .stop _
  | readVariable name => exact .readVariable _ name
  | declare _ _ | assign _ _ => exact .onScope _ _
  | newObject _ | newArray _ | newClosure _ _ _ => exact .make _
  | overwrite id key _ ih =>
    have hread := (Plain.readProperty id key).composed
    exact .bind hread fun _ => .bind ih fun _ => .bind hread fun _ =>
      .bind (.change _) fun _ => .value _
  | apply id args _ ih =>
    exact .bind (.fromHeap _) fun c => .inCall _ <|
      .bind (Plain.ofExcept (Closure.fresh_bind _ _ _)).composed fun _ =>
        .bind (.make _) fun inner => ih c inner
  | bind _ _ ihx ihf => exact .bind ihx ihf

end Run

end DialectScript
