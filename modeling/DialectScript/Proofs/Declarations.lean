import Mathlib
import DialectScript.Proofs.Steps

/-!
# Declarations stay where they are made

**Theorem (`State.declarations_stay`).** Whichever way it ends, an expression and a call leave every
scope that was there with the names it had; a statement gives new names only to its own scope, and
only such as it declares outside the bodies of functions.

A declaration binds in the scope of its statement, and the bodies of branches and loops share that
scope. The body of a called function has a scope of its own, which was not there before: what it
declares is not seen in any scope that was. An assignment finds its name bound.
-/

namespace DialectScript

/-- The statement declares the name. The bodies of branches and loops belong to it; the bodies of
functions do not. -/
inductive Stmt.Declares (name : String) : Stmt → Prop
  | declare (mutability : Mutability) (init : Option Expr) :
      Declares name (.declare mutability name init)
  | function (params : List String) (body : List Stmt) :
      Declares name (.function name params body)
  | thenBody (condition : Expr) {thenBody : List Stmt} (elseBody : Option (List Stmt)) {s : Stmt} :
      s ∈ thenBody → Declares name s → Declares name (.branch condition thenBody elseBody)
  | elseBody (condition : Expr) (thenBody : List Stmt) {elseBody : List Stmt} {s : Stmt} :
      s ∈ elseBody → Declares name s → Declares name (.branch condition thenBody (some elseBody))
  | loopBody (condition : Expr) {body : List Stmt} {s : Stmt} :
      s ∈ body → Declares name s → Declares name (.loop condition body)

/-- One of the statements declares the name. -/
def Program.Declares (program : Program) (name : String) : Prop := ∃ s ∈ program, s.Declares name

/-! ## What the scopes get -/

namespace Heap

variable {h h' h'' : Heap} {scope inner : ScopeId} {allowed allowed' : String → Prop}

/-- The own names of a scope, in the order in which they were declared. -/
def names (h : Heap) (id : ScopeId) : List String := (h.scope id).bindings.keys

/-- Every scope keeps its names, and what comes to them are allowed names, all in one scope. -/
structure Adds (scope : ScopeId) (allowed : String → Prop) (h h' : Heap) : Prop where
  size : h.scopes.size ≤ h'.scopes.size
  added : ∀ id < h.scopes.size, ∃ added, h'.names id = h.names id ++ added ∧
    ∀ name ∈ added, id = scope ∧ allowed name

namespace Adds

theorem of_names_eq (hsize : h.scopes.size ≤ h'.scopes.size)
    (hnames : ∀ id < h.scopes.size, h'.names id = h.names id) : Adds scope allowed h h' where
  size := hsize
  added id hid := ⟨[], by rw [hnames id hid, List.append_nil], nofun⟩

theorem of_scopes_eq (heq : h'.scopes = h.scopes) : Adds scope allowed h h' :=
  of_names_eq (Nat.le_of_eq (congrArg Array.size heq.symm)) fun id _ => by
    rw [Heap.names, Heap.scope, heq]
    rfl

theorem refl (h : Heap) : Adds scope allowed h h := of_scopes_eq rfl

theorem trans (hs : Adds scope allowed h h') (hs' : Adds scope allowed h' h'') :
    Adds scope allowed h h'' where
  size := Nat.le_trans hs.size hs'.size
  added id hid := by
    obtain ⟨first, hfirst, hall⟩ := hs.added id hid
    obtain ⟨second, hsecond, hall'⟩ := hs'.added id (Nat.lt_of_lt_of_le hid hs.size)
    refine ⟨first ++ second, by rw [hsecond, hfirst, List.append_assoc], fun name hname => ?_⟩
    rcases List.mem_append.1 hname with hname | hname
    · exact hall name hname
    · exact hall' name hname

theorem mono (hs : Adds scope allowed h h') (hle : ∀ name, allowed name → allowed' name) :
    Adds scope allowed' h h' where
  size := hs.size
  added id hid := by
    obtain ⟨added, hadded, hall⟩ := hs.added id hid
    exact ⟨added, hadded, fun name hname => (hall name hname).imp_right (hle name)⟩

theorem names_eq (hs : Adds scope (fun _ => False) h h') {id : ScopeId}
    (hid : id < h.scopes.size) : h'.names id = h.names id := by
  obtain ⟨added, hadded, hall⟩ := hs.added id hid
  rw [hadded, List.eq_nil_iff_forall_not_mem.2 fun name hname => (hall name hname).2,
    List.append_nil]

/-- What comes to a scope that is made first is not seen in those that were there. -/
theorem newScope {s : Scope} (hs : Adds h.scopes.size allowed' (h.newScope s).2 h') :
    Adds scope allowed h h' := by
  have hsize : h.scopes.size < (h.newScope s).2.scopes.size := by
    rw [size_scopes_newScope]
    exact Nat.lt_succ_self _
  refine of_names_eq (Nat.le_of_lt (Nat.lt_of_lt_of_le hsize hs.size)) fun id hid => ?_
  obtain ⟨added, hadded, hall⟩ := hs.added id (Nat.lt_trans hid hsize)
  have hnone : added = [] :=
    List.eq_nil_iff_forall_not_mem.2 fun name hname => Nat.ne_of_lt hid (hall name hname).1
  rw [hadded, hnone, List.append_nil, names, scope_newScope, if_neg (Nat.ne_of_lt hid), names]

end Adds

/-- A declaration adds its name to its scope. -/
theorem adds_declare {name : String} {b : Binding} (hname : allowed name)
    (hd : h.declare scope name b = .ok h') : Adds scope allowed h h' := by
  obtain ⟨hfree, rfl⟩ := declare_eq_ok hd
  refine ⟨Nat.le_of_eq (size_scopes_modifyBindings h scope _).symm, fun id hid => ?_⟩
  rw [names, scope_modifyBindings]
  split
  · next hown =>
    rw [hown.1]
    refine ⟨[name], Table.keys_insert_of_not_contains hfree b, fun other hother => ?_⟩
    rw [List.mem_singleton.1 hother]
    exact ⟨rfl, hname⟩
  · exact ⟨[], (List.append_nil _).symm, nofun⟩

/-- An assignment adds no name. -/
theorem adds_assign {id : ScopeId} {name : String} {v : Value} (ha : h.assign id name v = .ok h') :
    Adds scope allowed h h' := by
  obtain ⟨holder, old, -, hold, rfl⟩ := assign_eq_ok ha
  refine .of_names_eq (Nat.le_of_eq (size_scopes_modifyBindings h holder _).symm) fun other _ => ?_
  rw [names, scope_modifyBindings]
  split
  · next hown =>
    rw [hown.1]
    exact Table.keys_insert_of_contains (by rw [Table.contains, hold]; rfl) _
  · rfl

end Heap

/-! ## Runs -/

namespace Run

variable {α β : Type} {scope : ScopeId} {allowed allowed' : String → Prop} {x : Run α}
  {f : α → Run β}

/-- Whichever way the run ends, it adds allowed names only, in one scope. -/
def Adds (scope : ScopeId) (allowed : String → Prop) (x : Run α) : Prop :=
  ∀ s : State, s.heap.Adds scope allowed (x.final s).heap

/-- A plain run leaves the scopes alone. -/
theorem Plain.final_scopes (h : Plain x) (s : State) :
    (x.final s).heap.scopes = s.heap.scopes := by
  induction h generalizing s with
  | value | fault | fromHeap | printLine | modifyArray => rfl
  | @bind α β x f _ _ ihx ihf =>
    rcases final_bind x f s with ⟨a, -, hfinal⟩ | hfinal
    · rw [hfinal, ihf, ihx]
    · rw [hfinal, ihx]

namespace Adds

theorem plain (h : Plain x) : Adds scope allowed x := fun s => .of_scopes_eq (h.final_scopes s)

theorem value (a : α) : Adds scope allowed (pure a : Run α) := plain (.value a)

theorem stop (e : Stop) : Adds scope allowed (throw e : Run α) := fun s => .refl s.heap

theorem readVariable (id : ScopeId) (name : String) :
    Adds scope allowed (Run.readVariable id name) := fun s => by
  rw [final_readVariable]
  exact .refl s.heap

theorem declare {name : String} (hname : allowed name) (b : Binding) :
    Adds scope allowed (onScope name (·.declare scope name b)) := fun s => by
  rcases final_onScope name (·.declare scope name b) s with ⟨heap, hd, hfinal⟩ | hfinal
  · rw [hfinal]
    exact Heap.adds_declare hname hd
  · rw [hfinal]
    exact .refl s.heap

theorem assign (id : ScopeId) (name : String) (v : Value) :
    Adds scope allowed (onScope name (·.assign id name v)) := fun s => by
  rcases final_onScope name (·.assign id name v) s with ⟨heap, ha, hfinal⟩ | hfinal
  · rw [hfinal]
    exact Heap.adds_assign ha
  · rw [hfinal]
    exact .refl s.heap

theorem bind (hx : Adds scope allowed x) (hf : ∀ a, Adds scope allowed (f a)) :
    Adds scope allowed (x >>= f) := fun s => by
  rcases final_bind x f s with ⟨a, -, hfinal⟩ | hfinal
  · rw [hfinal]
    exact (hx s).trans (hf a _)
  · rw [hfinal]
    exact hx s

theorem mono (hx : Adds scope allowed x) (hle : ∀ name, allowed name → allowed' name) :
    Adds scope allowed' x :=
  fun s => (hx s).mono hle

/-- What the body of a call adds, it adds to the scope of the call. -/
theorem apply (id : FunctionId) (args : List Value) {body : Closure → ScopeId → Run α}
    (hbody : ∀ c inner, ∃ allowed, Adds inner allowed (body c inner)) :
    Adds scope allowed (Run.apply id args body) := fun s => by
  rcases final_apply id args body s with hfinal | ⟨calls, bindings, -, -, hfinal⟩
  · rw [hfinal]
    exact .refl s.heap
  · obtain ⟨_, hadds⟩ := hbody (s.heap.closure id) s.heap.scopes.size
    have hinner := hadds (s.entered (s.heap.closure id) calls bindings)
    rw [hfinal]
    exact .newScope hinner

end Adds

end Run

open Run

/-! ## Evaluators -/

/-- With this fuel, expressions and calls add no name, and statements add what they declare. -/
structure AllAdd (n : Nat) : Prop where
  expr : ∀ {allowed} scope e, Adds scope allowed (Expr.eval n scope e)
  assign : ∀ {allowed} scope target value, Adds scope allowed (Expr.evalAssign n scope target value)
  properties : ∀ {allowed} scope ps entries,
    Adds scope allowed (evalProperties n scope ps entries)
  list : ∀ {allowed} scope es, Adds scope allowed (evalList n scope es)
  call : ∀ {allowed} scope f args, Adds scope allowed (Value.call n f args)
  stmt : ∀ scope s, Adds scope (Stmt.Declares · s) (Stmt.eval n scope s)
  loop : ∀ scope c body last, Adds scope (Program.Declares body) (evalLoop n scope c body last)
  body : ∀ scope b last, Adds scope (Program.Declares b) (evalBody n scope b last)

namespace AllAdd

theorem zero : AllAdd 0 where
  expr _ _ := by rw [Expr.eval]; exact .stop _
  assign _ _ _ := by rw [Expr.evalAssign]; exact .stop _
  properties _ _ _ := by rw [evalProperties]; exact .stop _
  list _ _ := by rw [evalList]; exact .stop _
  call _ _ _ := by rw [Value.call]; exact .stop _
  stmt _ _ := by rw [Stmt.eval]; exact .stop _
  loop _ _ _ _ := by rw [evalLoop]; exact .stop _
  body _ _ _ := by rw [evalBody]; exact .stop _

variable {n : Nat} {allowed : String → Prop}

theorem expr_succ (ih : AllAdd n) (scope : ScopeId) (e : Expr) :
    Adds scope allowed (Expr.eval (n + 1) scope e) := by
  -- A call declares in the scope that it opens, and nothing else in an expression declares.
  cases e with
  | identifier name =>
    rw [Expr.eval]
    exact .readVariable scope name
  | number _ | string _ =>
    rw [Expr.eval]
    exact .value _
  | binary operator left right =>
    rw [Expr.eval]
    exact .bind (ih.expr _ _) fun _ => .bind (ih.expr _ _) fun _ =>
      .plain (.ofExcept (operator.fresh_apply _ _))
  | assign target value =>
    rw [Expr.eval]
    exact ih.assign _ _ _
  | object properties =>
    rw [Expr.eval]
    exact .bind (ih.properties _ _ _) fun _ => .bind (fun s => .of_scopes_eq rfl) fun _ =>
      .value _
  | array elements =>
    rw [Expr.eval]
    exact .bind (ih.list _ _) fun _ => .bind (fun s => .of_scopes_eq rfl) fun _ => .value _
  | member object property access =>
    rw [Expr.eval]
    refine .bind (ih.expr _ _) fun container => ?_
    cases container with
    | object id =>
      cases access with
      | dot =>
        exact .plain (.bind (.propertyKey property) fun _ => .readProperty _ _)
      | bracket => exact .stop _
    | array id =>
      cases access with
      | dot => exact .stop _
      | bracket => exact .bind (ih.expr _ _) fun _ => .plain (.readElement _ _)
    | null | boolean _ | number _ | string _ | function _ | builtin _ => exact .stop _
  | call callee arguments =>
    rw [Expr.eval]
    exact .bind (ih.expr _ _) fun _ => .bind (ih.list _ _) fun _ => ih.call _ _ _

theorem assign_succ (ih : AllAdd n) (scope : ScopeId) (target value : Expr) :
    Adds scope allowed (Expr.evalAssign (n + 1) scope target value) := by
  cases target with
  | identifier name =>
    rw [Expr.evalAssign]
    exact .bind (ih.expr _ _) fun _ => .bind (.assign _ _ _) fun _ => .value _
  | member object property access =>
    rw [Expr.evalAssign]
    refine .bind (ih.expr _ _) fun container => ?_
    cases container with
    | object id =>
      cases access with
      | dot =>
        exact .bind (.plain (.propertyKey property)) fun key =>
          .bind (.plain (.readProperty _ _)) fun _ => .bind (ih.expr _ _) fun _ =>
            .bind (.plain (.readProperty _ _)) fun _ =>
              .bind (fun s => .of_scopes_eq rfl) fun _ => .value _
      | bracket => exact .stop _
    | array id =>
      cases access with
      | dot => exact .stop _
      | bracket =>
        exact .bind (ih.expr _ _) fun _ => .bind (.plain (.slotOf _ _)) fun _ =>
          .bind (ih.expr _ _) fun _ => .plain <| .bind (.slotOf _ _) fun _ =>
            .bind (.modifyArray _ _) fun _ => .value _
    | null | boolean _ | number _ | string _ | function _ | builtin _ => exact .stop _
  | number _ | string _ | binary _ _ _ | assign _ _ | object _ | array _ | call _ _ =>
    simp only [Expr.evalAssign]
    exact .stop _

theorem properties_succ (ih : AllAdd n) (scope : ScopeId) (ps : List (Property Expr))
    (entries : Table Value) : Adds scope allowed (evalProperties (n + 1) scope ps entries) := by
  match ps with
  | [] =>
    rw [evalProperties]
    exact .value _
  | .shorthand key :: rest =>
    rw [evalProperties]
    exact .bind (.readVariable _ _) fun _ => ih.properties _ _ _
  | .pair key value :: rest =>
    rw [evalProperties]
    exact .bind (ih.expr _ _) fun _ => ih.properties _ _ _

theorem list_succ (ih : AllAdd n) (scope : ScopeId) (es : List Expr) :
    Adds scope allowed (evalList (n + 1) scope es) := by
  cases es with
  | nil =>
    rw [evalList]
    exact .value _
  | cons e rest =>
    rw [evalList]
    exact .bind (ih.expr _ _) fun _ => .bind (ih.list _ _) fun _ => .value _

theorem call_succ (ih : AllAdd n) (scope : ScopeId) (f : Value) (args : List Value) :
    Adds scope allowed (Value.call (n + 1) f args) := by
  cases f with
  | function id =>
    rw [Value.call]
    exact .apply id args fun c inner => ⟨_, ih.body inner c.body .null⟩
  | builtin b =>
    rw [Value.call]
    exact .plain (.builtin b args)
  | null | boolean _ | number _ | string _ | object _ | array _ =>
    simp only [Value.call]
    exact .stop _

/-- A condition is tested, and each outcome goes on in its own way. -/
theorem test {scope : ScopeId} {x f g : Run Value} (h : Adds scope allowed x)
    (hf : Adds scope allowed f) (hg : Adds scope allowed g) :
    Adds scope allowed (x >>= fun v => match v with
      | .boolean true => f
      | .boolean false => g
      | v => Run.fault (.nonBooleanCondition v.type)) := by
  refine .bind h fun v => ?_
  match v with
  | .boolean true => exact hf
  | .boolean false => exact hg
  | .null | .number _ | .string _ | .object _ | .array _ | .function _ | .builtin _ =>
    exact .stop _

theorem stmt_succ (ih : AllAdd n) (scope : ScopeId) (s : Stmt) :
    Adds scope (Stmt.Declares · s) (Stmt.eval (n + 1) scope s) := by
  match s with
  | .declare mutability name none =>
    rw [Stmt.eval]
    exact .bind (.declare (.declare mutability none) _) fun _ => .value _
  | .declare mutability name (some init) =>
    rw [Stmt.eval]
    exact .bind (ih.expr _ _) fun _ =>
      .bind (.declare (.declare mutability (some init)) _) fun _ => .value _
  | .function name params body =>
    rw [Stmt.eval]
    exact .bind (fun s => .of_scopes_eq rfl) fun _ =>
      .bind (.declare (.function params body) _) fun _ => .value _
  | .branch condition thenBody elseBody =>
    rw [Stmt.eval]
    refine test (ih.expr _ _) ((ih.body _ _ _).mono ?_) ((ih.body _ _ _).mono ?_)
    · rintro name ⟨s, hs, hname⟩
      exact .thenBody condition elseBody hs hname
    · rintro name ⟨s, hs, hname⟩
      cases elseBody with
      | none => cases hs
      | some elseBody => exact .elseBody condition thenBody hs hname
  | .loop condition body =>
    rw [Stmt.eval]
    refine (ih.loop _ _ _ _).mono ?_
    rintro name ⟨s, hs, hname⟩
    exact .loopBody condition hs hname
  | .importPath _ =>
    rw [Stmt.eval]
    exact .value _
  | .expression e =>
    rw [Stmt.eval]
    exact ih.expr _ _

theorem loop_succ (ih : AllAdd n) (scope : ScopeId) (condition : Expr) (body : List Stmt)
    (last : Value) :
    Adds scope (Program.Declares body) (evalLoop (n + 1) scope condition body last) := by
  rw [evalLoop]
  exact test (ih.expr _ _) (.bind (ih.body _ _ _) fun _ => ih.loop _ _ _ _) (.value _)

theorem body_succ (ih : AllAdd n) (scope : ScopeId) (b : List Stmt) (last : Value) :
    Adds scope (Program.Declares b) (evalBody (n + 1) scope b last) := by
  cases b with
  | nil =>
    rw [evalBody]
    exact .value _
  | cons s rest =>
    rw [evalBody]
    refine .bind ((ih.stmt _ _).mono fun name hname => ⟨s, List.mem_cons_self, hname⟩)
      fun v => (ih.body _ _ _).mono ?_
    rintro name ⟨s', hs', hname⟩
    exact ⟨s', List.mem_cons_of_mem s hs', hname⟩

end AllAdd

/-- With any fuel, expressions and calls add no name, and statements add what they declare. -/
theorem allAdd (n : Nat) : AllAdd n := by
  induction n with
  | zero => exact .zero
  | succ n ih =>
    exact
      { expr := ih.expr_succ
        assign := ih.assign_succ
        properties := ih.properties_succ
        list := ih.list_succ
        call := ih.call_succ
        stmt := ih.stmt_succ
        loop := ih.loop_succ
        body := ih.body_succ }

/-! ## The theorem -/

/-- Whichever way they end, expressions and calls change the names of no scope that was there, and
a statement adds names only to its own scope, and only those that it declares. -/
theorem State.declarations_stay (s : State) (fuel : Nat) :
    (∀ scope (e : Expr), ∀ id < s.heap.scopes.size,
      ((e.eval fuel scope).final s).heap.names id = s.heap.names id) ∧
    (∀ (f : Value) args, ∀ id < s.heap.scopes.size,
      ((f.call fuel args).final s).heap.names id = s.heap.names id) ∧
    ∀ scope (st : Stmt), ∀ id < s.heap.scopes.size,
      (id ≠ scope → ((st.eval fuel scope).final s).heap.names id = s.heap.names id) ∧
      ∃ added, ((st.eval fuel scope).final s).heap.names id = s.heap.names id ++ added ∧
        ∀ name ∈ added, st.Declares name := by
  have hall := allAdd fuel
  refine ⟨fun scope e id hid => ?_, fun f args id hid => ?_, fun scope st id hid => ?_⟩
  · exact (hall.expr scope e s).names_eq hid
  · exact (hall.call 0 f args s).names_eq hid
  · obtain ⟨added, hadded, hnames⟩ := (hall.stmt scope st s).added id hid
    refine ⟨fun hne => ?_, added, hadded, fun name hname => (hnames name hname).2⟩
    rw [hadded, List.eq_nil_iff_forall_not_mem.2 fun name hname => hne (hnames name hname).1,
      List.append_nil]

/-- A branch declares `a` and calls a function that declares `x`, and then fails: the scope has got
`a`, and the scope of the call `x`. -/
theorem State.declarations_stay_branch :
    let bindings : Table Binding :=
      .insert (.insert .empty "c" ⟨.boolean true, .constant⟩) "f" ⟨.function 0, .constant⟩
    let call : Expr := .call (.identifier "f") []
    let st : Stmt := .branch (.identifier "c")
      [.declare .mutable "a" none, .expression call, .expression (.identifier "z")] none
    let s : State :=
      ⟨⟨#[⟨bindings, none⟩], #[], #[], #[⟨"f", [], [.declare .mutable "x" none], 0⟩]⟩, default,
        .empty none⟩
    s.heap.names 0 = ["c", "f"] ∧
      st.eval 9 0 s =
        .error (.fault (.ofCause (.undeclaredVariable "z"))) ((st.eval 9 0).final s) ∧
      ((st.eval 9 0).final s).heap.names 0 = ["c", "f"] ++ ["a"] ∧
      ((st.eval 9 0).final s).heap.names 1 = ["x"] ∧ (∀ name ∈ ["a"], st.Declares name) ∧
      ((call.eval 9 0).final s).heap.names 0 = ["c", "f"] := by
  intro bindings call st s
  have hfirst : s.heap.names 0 = ["c", "f"] := by
    subst s bindings
    cbv
  have hlast : ((st.eval 9 0).final s).heap.names 0 = ["c", "f", "a"] := by
    subst s st call bindings
    cbv
  obtain ⟨hexpr, -, hstmt⟩ := s.declarations_stay 9
  obtain ⟨-, added, hadded, hnames⟩ := hstmt 0 st 0 Nat.one_pos
  rw [hlast, hfirst] at hadded
  obtain rfl : ["a"] = added :=
    List.append_cancel_left (show ["c", "f"] ++ ["a"] = ["c", "f"] ++ added from hadded)
  refine ⟨hfirst, ?_, hlast, ?_, hnames, (hexpr 0 call 0 Nat.one_pos).trans hfirst⟩
  · subst s st call bindings
    cbv
  · subst s st call bindings
    cbv

end DialectScript
