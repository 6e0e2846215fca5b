import DialectScript.Proofs.Declarations
import DialectScript.Proofs.Sessions

/-!
# Declarations that are run again

The body of a loop runs in the scope of the loop, and a program in the scope of its session, so a
declaration among their statements finds its name taken when it is run again.

**Theorem (`Program.declares_once`).** A loop whose body has a declaration among its statements
completes at most one round. If its condition holds a second time, the loop does not end but in a
fault: one that is raised in front of a declaration, or that the declared name is declared already.
A program with a declaration that has ended with a value never does so again in the same scope,
whatever is run in between.

* `Heap.Taken` — a scope is there and has a name. Nothing that runs removes a name from a scope
  (`Run.Adds.taken`), so a name that is taken behind one round stays taken.
* `Rounds` — the rounds of a loop. A loop that ends has gone through some rounds and then found its
  condition false (`rounds_of_evalLoop`).
-/

namespace DialectScript

open Run

/-! ## Names that are taken -/

/-- The statement itself declares the name. -/
inductive Stmt.Binds (name : String) : Stmt → Prop
  | declare (mutability : Mutability) (init : Option Expr) :
      Binds name (.declare mutability name init)
  | function (params : List String) (body : List Stmt) : Binds name (.function name params body)

/-- The scope is there and has the name. -/
structure Heap.Taken (h : Heap) (scope : ScopeId) (name : String) : Prop where
  lt : scope < h.scopes.size
  mem : name ∈ h.names scope

namespace Heap

variable {h h' : Heap} {scope scope' : ScopeId} {name : String} {allowed : String → Prop}

theorem Adds.taken (hadds : h.Adds scope' allowed h') (htaken : h.Taken scope name) :
    h'.Taken scope name := by
  obtain ⟨added, hadded, -⟩ := hadds.added scope htaken.lt
  refine ⟨Nat.lt_of_lt_of_le htaken.lt hadds.size, ?_⟩
  rw [hadded]
  exact List.mem_append_left added htaken.mem

theorem Taken.declare (htaken : h.Taken scope name) (b : Binding) :
    h.declare scope name b = .error .redeclared := by
  have hbinds : h.binds scope name = true := (Table.contains_iff_mem_keys _ _).2 htaken.mem
  rw [Heap.declare, if_pos hbinds]

theorem taken_of_declare {b : Binding} (hscope : scope < h.scopes.size)
    (hd : h.declare scope name b = .ok h') : h'.Taken scope name := by
  obtain ⟨-, rfl⟩ := declare_eq_ok hd
  refine ⟨by rwa [size_scopes_modifyBindings], ?_⟩
  rw [names, scope_modifyBindings, if_pos ⟨rfl, hscope⟩, ← Table.contains_iff_mem_keys,
    Table.contains_insert, beq_self_eq_true, Bool.true_or]

end Heap

/-- Expressions give no names. -/
theorem Expr.adds_of_eval {e : Expr} {n : Nat} {scope : ScopeId} {s t : State} {v : Value}
    (h : e.eval n scope s = .ok v t) : s.heap.Adds scope (fun _ => False) t.heap := by
  have hadds : Run.Adds scope (fun _ => False) (e.eval n scope) := (allAdd n).expr scope e
  rw [← final_of_ok h]
  exact hadds s

theorem Run.Adds.taken {α : Type} {x : Run α} {scope scope' : ScopeId} {allowed : String → Prop}
    {name : String} {s : State} (hx : x.Adds scope' allowed) (htaken : s.heap.Taken scope name) :
    (x.final s).heap.Taken scope name :=
  (hx s).taken htaken

/-! ## A declaration -/

namespace Stmt

/-- Make the value that a declaration gives its name. -/
def evalDeclared (fuel : Nat) (scope : ScopeId) : Stmt → Run Value
  | .declare _ _ (some init) => init.eval fuel scope
  | .function name params body => do
    let id ← make (·.newClosure ⟨name, params, body, scope⟩)
    return .function id
  | _ => return .null

variable {d : Stmt} {name : String} {scope : ScopeId}

theorem adds_evalDeclared {allowed : String → Prop} (n : Nat) (scope : ScopeId) (d : Stmt) :
    Adds scope allowed (d.evalDeclared n scope) := by
  match d with
  | .declare _ _ (some init) => exact (allAdd n).expr scope init
  | .function _ _ _ => exact .bind (fun s => .of_scopes_eq rfl) fun _ => .value _
  | .declare _ _ none | .branch _ _ _ | .loop _ _ | .importPath _ | .expression _ =>
    exact .value _

theorem evalDeclared_below (scope : ScopeId) (d : Stmt) (n : Nat) :
    Below (d.evalDeclared n scope) (d.evalDeclared (n + 1) scope) := by
  match d with
  | .declare _ _ (some init) => exact (FuelStep.all n).expr scope init
  | .function _ _ _ | .declare _ _ none | .branch _ _ _ | .loop _ _ | .importPath _
  | .expression _ => exact .refl _

/-- A declaration makes its value and binds its name to it. -/
theorem Binds.eval_succ (hd : d.Binds name) :
    ∃ mutability, ∀ n scope, d.eval (n + 1) scope = d.evalDeclared n scope >>= fun v =>
      onScope name (·.declare scope name ⟨v, mutability⟩) >>= fun _ => pure v := by
  cases hd with
  | declare mutability init =>
    refine ⟨mutability, fun n scope => ?_⟩
    cases init <;> rw [Stmt.eval] <;> rfl
  | function params body =>
    refine ⟨.constant, fun n scope => ?_⟩
    rw [Stmt.eval, evalDeclared, bind_assoc]
    rfl

/-- What is evaluated before a declaration behind other statements binds its name. -/
def lead (fuel : Nat) (scope : ScopeId) (front : List Stmt) (d : Stmt) : Run Value := do
  let _ ← evalBody fuel scope front .null
  d.evalDeclared fuel scope

variable {s t : State} {n : Nat} {v : Value}

/-- Behind a declaration its name is taken. -/
theorem Binds.taken (hd : d.Binds name) (hscope : scope < s.heap.scopes.size)
    (h : d.eval n scope s = .ok v t) : t.heap.Taken scope name := by
  cases n with
  | zero =>
    rw [Stmt.eval] at h
    cases h
  | succ n =>
    obtain ⟨mutability, heval⟩ := hd.eval_succ
    rw [heval] at h
    obtain ⟨w, u, hw, hrest⟩ := bind_eq_ok h
    obtain ⟨⟨⟩, x, hx, hpure⟩ := bind_eq_ok hrest
    cases hpure
    have hadds : Adds scope (fun _ => False) (d.evalDeclared n scope) :=
      d.adds_evalDeclared n scope
    have hsize := (hadds s).size
    rw [final_of_ok hw] at hsize
    unfold onScope at hx
    split at hx
    · next heap hdeclare =>
      cases hx
      exact Heap.taken_of_declare (Nat.lt_of_lt_of_le hscope hsize) hdeclare
    · cases hx

end Stmt

/-! ## Statements in order -/

section Bodies

variable {scope : ScopeId} {body front back : List Stmt} {d : Stmt} {name : String}
  {s t : State} {n : Nat} {v last : Value}

/-- Behind statements that end with a value, the names of all declarations among them are taken. -/
theorem evalBody_taken (hd : d ∈ body) (hname : d.Binds name)
    (hscope : scope < s.heap.scopes.size) (h : evalBody n scope body last s = .ok v t) :
    t.heap.Taken scope name := by
  induction body generalizing n last s with
  | nil => cases hd
  | cons stmt rest ih =>
    cases n with
    | zero =>
      rw [evalBody] at h
      cases h
    | succ n =>
      rw [evalBody] at h
      obtain ⟨w, u, hw, hrest⟩ := bind_eq_ok h
      rcases List.mem_cons.1 hd with rfl | hd
      · have htaken := hname.taken hscope hw
        rw [← final_of_ok hrest]
        exact ((allAdd n).body scope rest w).taken htaken
      · have hsize := ((allAdd n).stmt scope stmt s).size
        rw [final_of_ok hw] at hsize
        exact ih hd (Nat.lt_of_lt_of_le hscope hsize) hrest

/-- With more fuel, statements that end are evaluated up to a declaration, which has fuel left. -/
theorem evalBody_lead (hname : d.Binds name)
    (hends : ∀ u, evalBody n scope (front ++ d :: back) .null s ≠ .error .outOfFuel u) :
    ∃ mutability m, evalBody n scope (front ++ d :: back) .null s =
      (d.lead m scope front >>= fun v =>
        (onScope name (·.declare scope name ⟨v, mutability⟩) >>= fun _ => pure v) >>= fun v =>
          evalBody (n + 1) scope back v) s := by
  obtain ⟨mutability, heval⟩ := hname.eval_succ
  have hle : n ≤ n + 2 + front.length := by omega
  have hsame := Below.eq_of_ends (fun n => (FuelStep.all n).body scope _ .null) hle hends
  have hrest : ∀ v, evalBody (n + 2) scope (d :: back) v = d.evalDeclared n scope >>= fun v =>
      (onScope name (·.declare scope name ⟨v, mutability⟩) >>= fun _ => pure v) >>= fun v =>
        evalBody (n + 1) scope back v := fun v => by
    rw [evalBody, heval, bind_assoc]
  refine ⟨mutability, n + 2 + front.length, ?_⟩
  rw [← hsame, evalBody_append] at hends
  rw [← hsame, evalBody_append, Stmt.lead, bind_assoc]
  simp only [hrest] at hends ⊢
  -- The value that is declared is made with less fuel than the statements before it.
  have hbelow := Below.of_le (d.evalDeclared_below scope) hle
  have hall := Below.bind_right (evalBody (n + 2 + front.length) scope front .null) fun _ =>
    hbelow.bind_left fun v =>
      (onScope name (·.declare scope name ⟨v, mutability⟩) >>= fun _ => pure v) >>= fun v =>
        evalBody (n + 1) scope back v
  exact (hall s).resolve_right (not_exists.2 hends)

/-- Statements with a declaration of a name that is taken do not end but in a fault: that of what is
evaluated before the name is bound, or that the name is declared already. -/
theorem evalBody_of_taken (hname : d.Binds name) (htaken : s.heap.Taken scope name)
    (hends : ∀ u, evalBody n scope (front ++ d :: back) .null s ≠ .error .outOfFuel u) :
    ∃ f u, evalBody n scope (front ++ d :: back) .null s = .error (.fault f) u ∧
      ∃ m, d.lead m scope front s = .error (.fault f) u ∨
        f = .ofCause (.redeclaredVariable name) ∧ ∃ v, d.lead m scope front s = .ok v u := by
  obtain ⟨mutability, m, heq⟩ := evalBody_lead hname hends
  rw [heq] at hends ⊢
  cases hlead : d.lead m scope front s with
  | error e u =>
    rw [bind_of_error hlead] at hends ⊢
    cases e with
    | outOfFuel => exact absurd rfl (hends u)
    | fault f => exact ⟨f, u, rfl, m, .inl hlead⟩
  | ok v u =>
    have hadds : Adds scope (Program.Declares front) (d.lead m scope front) :=
      .bind ((allAdd m).body scope front .null) fun _ => d.adds_evalDeclared m scope
    have hstill := hadds.taken htaken
    rw [final_of_ok hlead] at hstill
    have hagain : onScope name (·.declare scope name ⟨v, mutability⟩) u =
        .error (.fault (.ofCause (.redeclaredVariable name))) u := by
      rw [onScope, hstill.declare]
      rfl
    refine ⟨_, u, ?_, m, .inr ⟨rfl, v, hlead⟩⟩
    rw [bind_of_ok hlead]
    exact bind_of_error (bind_of_error hagain)

/-- The fault is one and the same for all declarations among the statements. -/
theorem evalBody_of_taken_all (hbody : ∃ d ∈ body, ∃ name, d.Binds name)
    (htaken : ∀ d ∈ body, ∀ name, d.Binds name → s.heap.Taken scope name)
    (hends : ∀ u, evalBody n scope body .null s ≠ .error .outOfFuel u) :
    ∃ f u, evalBody n scope body .null s = .error (.fault f) u ∧
      ∀ front d back name, body = front ++ d :: back → d.Binds name →
        ∃ m, d.lead m scope front s = .error (.fault f) u ∨
          f = .ofCause (.redeclaredVariable name) ∧ ∃ v, d.lead m scope front s = .ok v u := by
  obtain ⟨d, hd, name, hname⟩ := hbody
  obtain ⟨front, back, rfl⟩ := List.append_of_mem hd
  obtain ⟨f, u, hfault, -⟩ := evalBody_of_taken hname (htaken d hd name hname) hends
  refine ⟨f, u, hfault, fun front' d' back' name' hsplit hname' => ?_⟩
  have hd' : d' ∈ front ++ d :: back := hsplit ▸ List.mem_append_right front' (.head back')
  have hstill := htaken d' hd' name' hname'
  rw [hsplit] at hfault hends
  obtain ⟨f', u', hfault', hlead⟩ := evalBody_of_taken hname' hstill hends
  rw [hfault] at hfault'
  cases hfault'
  exact hlead

/-- So they do not end with a value. -/
theorem evalBody_ne_ok (hd : d ∈ body) (hname : d.Binds name) (htaken : s.heap.Taken scope name) :
    evalBody n scope body .null s ≠ .ok v t := by
  intro hok
  obtain ⟨front, back, rfl⟩ := List.append_of_mem hd
  have hends : ∀ u, evalBody n scope (front ++ d :: back) .null s ≠ .error .outOfFuel u := by
    simp [hok]
  obtain ⟨f, u, hfault, -⟩ := evalBody_of_taken hname htaken hends
  rw [hok] at hfault
  cases hfault

end Bodies

/-! ## Loops -/

/-- From the first state and value, the loop completes this number of rounds, each of them with any
amount of fuel, and comes to test its condition in the second state, with the second value. -/
inductive Rounds (scope : ScopeId) (condition : Expr) (body : List Stmt) :
    Nat → State → Value → State → Value → Prop
  | zero (s : State) (last : Value) : Rounds scope condition body 0 s last s last
  | succ {k n m : Nat} {s t u w : State} (last : Value) {v v' : Value} :
      condition.eval n scope s = .ok (.boolean true) t → evalBody m scope body .null t = .ok v u →
      Rounds scope condition body k u v w v' → Rounds scope condition body (k + 1) s last w v'

section Loops

variable {scope : ScopeId} {condition : Expr} {body : List Stmt} {d : Stmt} {name : String}
  {s t u : State} {k n : Nat} {v last : Value}

/-- A loop that ends with a value has completed some rounds and then found its condition false. -/
theorem rounds_of_evalLoop (h : evalLoop n scope condition body last s = .ok v t) :
    ∃ k u m, Rounds scope condition body k s last u v ∧
      condition.eval m scope u = .ok (.boolean false) t := by
  induction n generalizing last s with
  | zero =>
    rw [evalLoop] at h
    cases h
  | succ n ih =>
    rw [evalLoop] at h
    obtain ⟨b, u, hcondition, hrest⟩ := bind_eq_ok h
    cases b with
    | boolean b =>
      cases b with
      | true =>
        obtain ⟨w, x, hbody, hloop⟩ := bind_eq_ok hrest
        obtain ⟨k, y, m, hrounds, hlast⟩ := ih hloop
        exact ⟨k + 1, y, m, .succ _ hcondition hbody hrounds, hlast⟩
      | false =>
        cases hrest
        exact ⟨0, s, n, .zero s _, hcondition⟩
    | null | number _ | string _ | object _ | array _ | function _ | builtin _ => cases hrest

/-- A loop whose condition holds goes on with its body. -/
theorem evalLoop_of_condition (hcondition : condition.eval k scope s = .ok (.boolean true) t)
    (hends : ∀ u, evalLoop n scope condition body last s ≠ .error .outOfFuel u) :
    ∃ m, evalLoop n scope condition body last s =
      (evalBody m scope body .null >>= fun v => evalLoop m scope condition body v) t := by
  cases n with
  | zero => exact absurd (by rw [evalLoop]; rfl) (hends s)
  | succ n =>
    rw [evalLoop] at hends ⊢
    refine ⟨n, ?_⟩
    rcases Below.ok_or_outOfFuel (fun n => (FuelStep.all n).expr scope condition) hcondition n with
      hn | ⟨u, hu⟩
    · exact bind_of_ok hn
    · exact absurd (bind_of_error hu) (hends u)

/-- A loop that ends goes through the rounds that it completes. -/
theorem Rounds.evalLoop_eq (h : Rounds scope condition body k s last t v)
    (hends : ∀ u, evalLoop n scope condition body last s ≠ .error .outOfFuel u) :
    ∃ m, evalLoop n scope condition body last s = evalLoop m scope condition body v t := by
  induction h generalizing n with
  | zero s last => exact ⟨n, rfl⟩
  | @succ k a b s t u w last v v' hcondition hbody _ ih =>
    obtain ⟨m, hm⟩ := evalLoop_of_condition hcondition hends
    rw [hm] at hends ⊢
    rcases Below.ok_or_outOfFuel (fun n => (FuelStep.all n).body scope body .null) hbody m with
      hok | ⟨x, hx⟩
    · rw [bind_of_ok hok] at hends ⊢
      exact ih hends
    · exact absurd (bind_of_error hx) (hends x)

/-- No round removes a name from a scope. -/
theorem Rounds.keeps (h : Rounds scope condition body k s last t v)
    (htaken : s.heap.Taken scope name) : t.heap.Taken scope name := by
  induction h with
  | zero _ _ => exact htaken
  | @succ k a b s t u w last v v' hcondition hbody _ ih =>
    have htested := (Expr.adds_of_eval hcondition).taken htaken
    have hround := ((allAdd b).body scope body .null).taken htested
    rw [final_of_ok hbody] at hround
    exact ih hround

/-- Behind the first round of a loop, the names of all declarations in its body are taken. -/
theorem Rounds.taken (h : Rounds scope condition body (k + 1) s last t v) (hd : d ∈ body)
    (hname : d.Binds name) (hscope : scope < s.heap.scopes.size) : t.heap.Taken scope name := by
  cases h with
  | @succ _ a b _ t u _ _ v _ hcondition hbody hrounds =>
    have hsize := (Expr.adds_of_eval hcondition).size
    exact hrounds.keeps (evalBody_taken hd hname (Nat.lt_of_lt_of_le hscope hsize) hbody)

/-- They still are when the condition has been tested again. -/
theorem Rounds.taken_condition {b : Value} (h : Rounds scope condition body (k + 1) s last t v)
    (hd : d ∈ body) (hname : d.Binds name) (hscope : scope < s.heap.scopes.size)
    (hcondition : condition.eval n scope t = .ok b u) : u.heap.Taken scope name :=
  (Expr.adds_of_eval hcondition).taken (h.taken hd hname hscope)

/-- There is no round of a body with a declaration of a name that is taken. -/
theorem Rounds.eq_zero (h : Rounds scope condition body k s last t v) (hd : d ∈ body)
    (hname : d.Binds name) (htaken : s.heap.Taken scope name) : k = 0 := by
  cases h with
  | zero => rfl
  | @succ _ a b _ t u _ _ v _ hcondition hbody _ =>
    have htested := (Expr.adds_of_eval hcondition).taken htaken
    exact absurd hbody (evalBody_ne_ok hd hname htested)

/-- A loop whose body has a declaration among its statements completes at most one round. -/
theorem Rounds.le_one (h : Rounds scope condition body k s last t v) (hd : d ∈ body)
    (hname : d.Binds name) (hscope : scope < s.heap.scopes.size) : k ≤ 1 := by
  cases h with
  | zero => exact Nat.zero_le 1
  | succ last hcondition hbody hrounds =>
    have hfirst := Rounds.succ last hcondition hbody (.zero _ _)
    rw [hrounds.eq_zero hd hname (hfirst.taken hd hname hscope)]

/-- In the second round, a loop ends as its body does. -/
theorem Rounds.evalLoop_second (h : Rounds scope condition body 1 s last t v) (hd : d ∈ body)
    (hname : d.Binds name) (hscope : scope < s.heap.scopes.size)
    (hcondition : condition.eval k scope t = .ok (.boolean true) u)
    (hends : ∀ x, evalLoop n scope condition body last s ≠ .error .outOfFuel x) :
    ∃ m, evalLoop n scope condition body last s = evalBody m scope body .null u := by
  obtain ⟨m, hm⟩ := h.evalLoop_eq hends
  rw [hm] at hends ⊢
  obtain ⟨m', hm'⟩ := evalLoop_of_condition hcondition hends
  refine ⟨m', hm'.trans ?_⟩
  have htaken := h.taken_condition hd hname hscope hcondition
  cases hbody : evalBody m' scope body .null u with
  | ok w x => exact absurd hbody (evalBody_ne_ok hd hname htaken)
  | error e x => exact bind_of_error hbody

end Loops

/-! ## Later states -/

/-- Runs of programs lead from the first state to a heap that is that of the second, in any scopes,
with any amounts of fuel and whatever becomes of them. -/
def State.Later : State → State → Prop :=
  Relation.ReflTransGen fun s t => ∃ n scope program,
    t.heap = ((Program.run n scope program).final s).heap

theorem State.Later.taken {s t : State} {scope : ScopeId} {name : String} (h : s.Later t)
    (htaken : s.heap.Taken scope name) : t.heap.Taken scope name := by
  induction h with
  | refl => exact htaken
  | tail _ hstep ih =>
    obtain ⟨n, scope', program, heap⟩ := hstep
    rw [heap]
    exact ((allAdd n).body scope' program .null).taken ih

/-! ## The theorem -/

/-- A loop with a declaration among the statements of its body completes at most one round, and has
completed no more when it ends with a value. If its condition holds a second time, it ends in a
fault if it ends: for each declaration in the body, that of what is evaluated before the name is
bound, or that the name is declared already. A program with a declaration that has ended with a
value never does so again. -/
theorem Program.declares_once {body : List Stmt} {scope : ScopeId} {s : State}
    (hbody : ∃ d ∈ body, ∃ name, d.Binds name) (hscope : scope < s.heap.scopes.size) :
    (∀ condition,
      (∀ k t v, Rounds scope condition body k s .null t v → k ≤ 1) ∧
      (∀ fuel v t, (Stmt.loop condition body).eval fuel scope s = .ok v t →
        ∃ k ≤ 1, ∃ u n, Rounds scope condition body k s .null u v ∧
          condition.eval n scope u = .ok (.boolean false) t) ∧
      ∀ t v n u, Rounds scope condition body 1 s .null t v →
        condition.eval n scope t = .ok (.boolean true) u → ∀ fuel,
        (∀ x, (Stmt.loop condition body).eval fuel scope s ≠ .error .outOfFuel x) →
        ∃ f x, (Stmt.loop condition body).eval fuel scope s = .error (.fault f) x ∧
          ∀ front d back name, body = front ++ d :: back → d.Binds name →
            ∃ m, d.lead m scope front u = .error (.fault f) x ∨
              f = .ofCause (.redeclaredVariable name) ∧ ∃ v, d.lead m scope front u = .ok v x) ∧
    ∀ fuel v t, Program.run fuel scope body s = .ok v t → ∀ u, t.Later u → ∀ n v' x,
      Program.run n scope body u ≠ .ok v' x := by
  obtain ⟨d, hd, name, hname⟩ := hbody
  refine ⟨fun condition =>
    ⟨fun k t v h => h.le_one hd hname hscope, fun fuel v t hok => ?_, ?_⟩, ?_⟩
  · cases fuel with
    | zero =>
      rw [Stmt.eval] at hok
      cases hok
    | succ fuel =>
      rw [Stmt.eval] at hok
      obtain ⟨k, u, m, hrounds, hlast⟩ := rounds_of_evalLoop hok
      exact ⟨k, hrounds.le_one hd hname hscope, u, m, hrounds, hlast⟩
  · intro t v n u hrounds hcondition fuel hends
    cases fuel with
    | zero => exact absurd (by rw [Stmt.eval]; rfl) (hends s)
    | succ fuel =>
      rw [Stmt.eval] at hends ⊢
      obtain ⟨m, hm⟩ := hrounds.evalLoop_second hd hname hscope hcondition hends
      rw [hm] at hends ⊢
      refine evalBody_of_taken_all ⟨d, hd, name, hname⟩ (fun d' hd' name' hname' => ?_) hends
      exact hrounds.taken_condition hd' hname' hscope hcondition
  · intro fuel v t hok u hlater n v' x
    exact evalBody_ne_ok hd hname (hlater.taken (evalBody_taken hd hname hscope hok))

/-- Where `c` is true, a loop on `c` with the body `let x` declares `x` in its first round, and in
its second it fails. The statement `let x` alone does not end with a value again. -/
theorem Program.declares_once_let :
    let d : Stmt := .declare .mutable "x" none
    let loop : Stmt := .loop (.identifier "c") [d]
    let s : State :=
      ⟨⟨#[⟨.insert .empty "c" ⟨.boolean true, .constant⟩, none⟩], #[], #[], #[]⟩, default,
        .empty none⟩
    let t := (d.eval 1 0).final s
    Rounds 0 (.identifier "c") [d] 1 s .null t .null ∧
      (∀ k u v, Rounds 0 (.identifier "c") [d] k s .null u v → k ≤ 1) ∧
      loop.eval 5 0 s = .error (.fault (.ofCause (.redeclaredVariable "x"))) t ∧
      (∃ m v, d.lead m 0 [] t = .ok v t) ∧
      ∀ n v u, Program.run n 0 [d] t ≠ .ok v u := by
  intro d loop s t
  have hcondition : (Expr.identifier "c").eval 1 0 s = .ok (.boolean true) s := by
    subst s
    cbv
  have hbody : evalBody 2 0 [d] .null s = .ok .null t := by
    subst t s d
    cbv
  have hagain : (Expr.identifier "c").eval 1 0 t = .ok (.boolean true) t := by
    subst t s d
    cbv
  have hloop : loop.eval 5 0 s = .error (.fault (.ofCause (.redeclaredVariable "x"))) t := by
    subst loop t s d
    cbv
  have hends : ∀ x, loop.eval 5 0 s ≠ .error .outOfFuel x := fun x h => by
    rw [hloop] at h
    cases h
  have hrounds : Rounds 0 (.identifier "c") [d] 1 s .null t .null :=
    .succ _ hcondition hbody (.zero t .null)
  have hd : ∃ stmt ∈ [d], ∃ name, stmt.Binds name :=
    ⟨d, List.mem_singleton_self d, "x", .declare .mutable none⟩
  have hscope : 0 < s.heap.scopes.size := Nat.one_pos
  obtain ⟨hloops, hruns⟩ := declares_once hd hscope
  obtain ⟨hone, -, hsecond⟩ := hloops (.identifier "c")
  obtain ⟨f, x, hfault, hlead⟩ := hsecond t .null 1 t hrounds hagain 5 hends
  obtain ⟨m, hm⟩ := hlead [] d [] "x" rfl (.declare .mutable none)
  rw [hloop] at hfault
  cases hfault
  refine ⟨hrounds, hone, hloop, ⟨m, ?_⟩, hruns 2 .null t hbody t .refl⟩
  rcases hm with hm | ⟨-, hm⟩
  · -- Nothing is evaluated before the name is bound, so there is no such fault.
    cases m <;> rw [Stmt.lead, evalBody] at hm <;> cases hm
  · exact hm

end DialectScript
