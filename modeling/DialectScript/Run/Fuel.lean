import DialectScript.Run.Eval

/-!
# Fuel

Fuel only cuts runs short: a run that ends with a value or with a fault ends in the same way, and
in the same state, under any larger amount.

* `Run.Below` — one run ends as another does unless it runs out of fuel.
* `FuelStep` — one more unit of fuel puts no evaluation above its old self.
* `Program.run_below` — **a program that ends within its fuel ends the same with more**.

Only the recursive calls use fuel, so one induction on it suffices: every evaluator is built from
smaller ones by sequencing and by entering calls, and both keep `Below`.
-/

namespace DialectScript

namespace Run

variable {α β : Type}

/-- The first run ends as the second does, unless it runs out of fuel. -/
def Below (x y : Run α) : Prop :=
  ∀ s, x s = y s ∨ ∃ s', x s = .error .outOfFuel s'

namespace Below

theorem refl (x : Run α) : Below x x := fun _ => .inl rfl

theorem trans {x y z : Run α} (hxy : Below x y) (hyz : Below y z) : Below x z := by
  intro s
  rcases hxy s with h | h
  · rw [h]
    exact hyz s
  · exact .inr h

theorem of_outOfFuel (y : Run α) : Below (throw .outOfFuel) y := fun s => .inr ⟨s, rfl⟩

theorem bind {x y : Run α} {f g : α → Run β} (h : Below x y) (hf : ∀ a, Below (f a) (g a)) :
    Below (x >>= f) (y >>= g) := by
  intro s
  simp only [Bind.bind, EStateM.bind]
  rcases h s with hs | ⟨s', hs⟩
  · rw [hs]
    cases y s with
    | ok a s' => exact hf a s'
    | error e s' => exact .inl rfl
  · exact .inr ⟨s', by rw [hs]⟩

/-- The first step is the same in both runs. -/
theorem bind_right (x : Run α) {f g : α → Run β} (hf : ∀ a, Below (f a) (g a)) :
    Below (x >>= f) (x >>= g) :=
  (refl x).bind hf

/-- What follows the first step is the same in both runs. -/
theorem bind_left {x y : Run α} (h : Below x y) (f : α → Run β) : Below (x >>= f) (y >>= f) :=
  h.bind fun a => refl (f a)

theorem inCall {x y : Run α} (name : String) (h : Below x y) :
    Below (Run.inCall name x) (Run.inCall name y) := by
  intro s
  unfold Run.inCall
  cases s.calls.push name with
  | error f => exact .inl rfl
  | ok calls =>
    dsimp only
    rcases h { s with calls } with hs | ⟨s', hs⟩
    · rw [hs]
      exact .inl rfl
    · rw [hs]
      exact .inr ⟨_, rfl⟩

end Below

end Run

open Run

/-! ## One more unit -/

/-- Every evaluation with `n` units of fuel is below the same one with `n + 1`. -/
structure FuelStep (n : Nat) : Prop where
  expr : ∀ scope e, Below (Expr.eval n scope e) (Expr.eval (n + 1) scope e)
  assign : ∀ scope target value,
    Below (Expr.evalAssign n scope target value) (Expr.evalAssign (n + 1) scope target value)
  properties : ∀ scope ps entries,
    Below (evalProperties n scope ps entries) (evalProperties (n + 1) scope ps entries)
  list : ∀ scope es, Below (evalList n scope es) (evalList (n + 1) scope es)
  call : ∀ f args, Below (Value.call n f args) (Value.call (n + 1) f args)
  stmt : ∀ scope s, Below (Stmt.eval n scope s) (Stmt.eval (n + 1) scope s)
  loop : ∀ scope c body last,
    Below (evalLoop n scope c body last) (evalLoop (n + 1) scope c body last)
  body : ∀ scope b last, Below (evalBody n scope b last) (evalBody (n + 1) scope b last)

namespace FuelStep

theorem zero : FuelStep 0 where
  expr _ _ := by rw [Expr.eval]; exact .of_outOfFuel _
  assign _ _ _ := by rw [Expr.evalAssign]; exact .of_outOfFuel _
  properties _ _ _ := by rw [evalProperties]; exact .of_outOfFuel _
  list _ _ := by rw [evalList]; exact .of_outOfFuel _
  call _ _ := by rw [Value.call]; exact .of_outOfFuel _
  stmt _ _ := by rw [Stmt.eval]; exact .of_outOfFuel _
  loop _ _ _ _ := by rw [evalLoop]; exact .of_outOfFuel _
  body _ _ _ := by rw [evalBody]; exact .of_outOfFuel _

variable {n : Nat}

/-- A condition is tested, and the two outcomes go on in their own ways. -/
theorem test {x y : Run Value} {f g f' g' : Run Value} (h : Below x y)
    (hf : Below f f') (hg : Below g g') (other : Value → Run Value) :
    Below
      (x >>= fun v => match v with
        | .boolean true => f
        | .boolean false => g
        | v => other v)
      (y >>= fun v => match v with
        | .boolean true => f'
        | .boolean false => g'
        | v => other v) := by
  refine h.bind fun v => ?_
  match v with
  | .boolean true => exact hf
  | .boolean false => exact hg
  | .null | .number _ | .string _ | .object _ | .array _ | .function _ | .builtin _ =>
    exact .refl _

theorem expr_succ (ih : FuelStep n) (scope : ScopeId) (e : Expr) :
    Below (Expr.eval (n + 1) scope e) (Expr.eval (n + 1 + 1) scope e) := by
  -- Both runs take the same steps; those further in have one unit more on the right.
  cases e with
  | identifier _ | number _ | string _ =>
    rw [Expr.eval, Expr.eval]
    exact .refl _
  | binary operator l r =>
    rw [Expr.eval, Expr.eval]
    exact (ih.expr _ _).bind fun _ => (ih.expr _ _).bind_left _
  | assign target value =>
    rw [Expr.eval, Expr.eval]
    exact ih.assign _ _ _
  | object properties =>
    rw [Expr.eval, Expr.eval]
    exact (ih.properties _ _ _).bind_left _
  | array elements =>
    rw [Expr.eval, Expr.eval]
    exact (ih.list _ _).bind_left _
  | member object property access =>
    rw [Expr.eval, Expr.eval]
    refine (ih.expr _ _).bind fun container => ?_
    cases container with
    | array id =>
      cases access with
      | dot => exact .refl _
      | bracket => exact (ih.expr _ _).bind_left _
    | object id => cases access <;> exact .refl _
    | null | boolean _ | number _ | string _ | function _ | builtin _ => exact .refl _
  | call callee arguments =>
    rw [Expr.eval, Expr.eval]
    exact (ih.expr _ _).bind fun _ => (ih.list _ _).bind fun _ => ih.call _ _

theorem assign_succ (ih : FuelStep n) (scope : ScopeId) (target value : Expr) :
    Below (Expr.evalAssign (n + 1) scope target value)
      (Expr.evalAssign (n + 1 + 1) scope target value) := by
  cases target with
  | identifier name =>
    rw [Expr.evalAssign, Expr.evalAssign]
    exact (ih.expr _ _).bind_left _
  | member object property access =>
    rw [Expr.evalAssign, Expr.evalAssign]
    refine (ih.expr _ _).bind fun container => ?_
    cases container with
    | object id =>
      cases access with
      | dot => exact .bind_right _ fun _ => .bind_right _ fun _ => (ih.expr _ _).bind_left _
      | bracket => exact .refl _
    | array id =>
      cases access with
      | dot => exact .refl _
      | bracket =>
        exact (ih.expr _ _).bind fun _ => .bind_right _ fun _ => (ih.expr _ _).bind_left _
    | null | boolean _ | number _ | string _ | function _ | builtin _ => exact .refl _
  | number _ | string _ | binary _ _ _ | assign _ _ | object _ | array _ | call _ _ =>
    simp only [Expr.evalAssign]
    exact .refl _

theorem properties_succ (ih : FuelStep n) (scope : ScopeId) (ps : List (Property Expr))
    (entries : Table Value) :
    Below (evalProperties (n + 1) scope ps entries)
      (evalProperties (n + 1 + 1) scope ps entries) := by
  match ps with
  | [] =>
    rw [evalProperties, evalProperties]
    exact .refl _
  | .shorthand key :: rest =>
    rw [evalProperties, evalProperties]
    exact .bind_right _ fun _ => ih.properties _ _ _
  | .pair key value :: rest =>
    rw [evalProperties, evalProperties]
    exact (ih.expr _ _).bind fun _ => ih.properties _ _ _

theorem list_succ (ih : FuelStep n) (scope : ScopeId) (es : List Expr) :
    Below (evalList (n + 1) scope es) (evalList (n + 1 + 1) scope es) := by
  cases es with
  | nil =>
    rw [evalList, evalList]
    exact .refl _
  | cons e rest =>
    rw [evalList, evalList]
    exact (ih.expr _ _).bind fun _ => (ih.list _ _).bind_left _

theorem call_succ (ih : FuelStep n) (f : Value) (args : List Value) :
    Below (Value.call (n + 1) f args) (Value.call (n + 1 + 1) f args) := by
  cases f with
  | function id =>
    rw [Value.call, Value.call]
    exact .bind_right _ fun _ => .inCall _ <|
      .bind_right _ fun _ => .bind_right _ fun _ => ih.body _ _ _
  | null | boolean _ | number _ | string _ | object _ | array _ | builtin _ =>
    simp only [Value.call]
    exact .refl _

theorem stmt_succ (ih : FuelStep n) (scope : ScopeId) (s : Stmt) :
    Below (Stmt.eval (n + 1) scope s) (Stmt.eval (n + 1 + 1) scope s) := by
  match s with
  | .declare _ _ none | .function _ _ _ | .importPath _ =>
    rw [Stmt.eval, Stmt.eval]
    exact .refl _
  | .declare _ _ (some init) =>
    rw [Stmt.eval, Stmt.eval]
    exact (ih.expr _ _).bind_left _
  | .branch condition thenBody elseBody =>
    rw [Stmt.eval, Stmt.eval]
    exact test (ih.expr _ _) (ih.body _ _ _) (ih.body _ _ _) _
  | .loop condition body =>
    rw [Stmt.eval, Stmt.eval]
    exact ih.loop _ _ _ _
  | .expression e =>
    rw [Stmt.eval, Stmt.eval]
    exact ih.expr _ _

theorem loop_succ (ih : FuelStep n) (scope : ScopeId) (condition : Expr) (body : List Stmt)
    (last : Value) :
    Below (evalLoop (n + 1) scope condition body last)
      (evalLoop (n + 1 + 1) scope condition body last) := by
  rw [evalLoop, evalLoop]
  exact test (ih.expr _ _) ((ih.body _ _ _).bind fun _ => ih.loop _ _ _ _) (.refl _) _

theorem body_succ (ih : FuelStep n) (scope : ScopeId) (b : List Stmt) (last : Value) :
    Below (evalBody (n + 1) scope b last) (evalBody (n + 1 + 1) scope b last) := by
  cases b with
  | nil =>
    rw [evalBody, evalBody]
    exact .refl _
  | cons s rest =>
    rw [evalBody, evalBody]
    exact (ih.stmt _ _).bind fun _ => ih.body _ _ _

theorem succ (ih : FuelStep n) : FuelStep (n + 1) where
  expr := ih.expr_succ
  assign := ih.assign_succ
  properties := ih.properties_succ
  list := ih.list_succ
  call := ih.call_succ
  stmt := ih.stmt_succ
  loop := ih.loop_succ
  body := ih.body_succ

/-- One more unit of fuel keeps what has ended. -/
theorem all : ∀ n, FuelStep n
  | 0 => zero
  | n + 1 => (all n).succ

end FuelStep

/-! ## Any larger amount -/

/-- A family of runs in which each is below the next is ordered throughout. -/
theorem Run.Below.of_le {α : Type} {f : Nat → Run α} (h : ∀ n, Below (f n) (f (n + 1)))
    {n m : Nat} (hnm : n ≤ m) : Below (f n) (f m) := by
  induction hnm with
  | refl => exact .refl _
  | step _ ih => exact ih.trans (h _)

namespace Run.Below

variable {α : Type} {f : Nat → Run α} {n m : Nat} {s t : State} {a : α}

/-- What has ended is the same with more fuel. -/
theorem eq_of_ends (h : ∀ n, Below (f n) (f (n + 1))) (hnm : n ≤ m)
    (hends : ∀ u, f n s ≠ .error .outOfFuel u) : f m s = f n s :=
  ((of_le h hnm s).resolve_right fun ⟨u, hu⟩ => hends u hu).symm

/-- What has ended with a value ends so with any amount of fuel, unless it is used up. -/
theorem ok_or_outOfFuel (h : ∀ n, Below (f n) (f (n + 1))) (hok : f n s = .ok a t) (m : Nat) :
    f m s = .ok a t ∨ ∃ u, f m s = .error .outOfFuel u := by
  rcases Nat.le_total n m with hle | hle
  · exact .inl ((eq_of_ends h hle (by simp [hok])).trans hok)
  · exact (of_le h hle s).imp_left (·.trans hok)

end Run.Below

/-- An expression whose evaluation ends within its fuel ends the same with more. -/
theorem Expr.eval_below {n m : Nat} (hnm : n ≤ m) (scope : ScopeId) (e : Expr) :
    Below (e.eval n scope) (e.eval m scope) :=
  Below.of_le (fun n => (FuelStep.all n).expr scope e) hnm

/-- A program that ends within its fuel ends the same with more. -/
theorem Program.run_below {n m : Nat} (hnm : n ≤ m) (scope : ScopeId) (program : Program) :
    Below (program.run n scope) (program.run m scope) :=
  Below.of_le (fun n => (FuelStep.all n).body scope program .null) hnm

end DialectScript
