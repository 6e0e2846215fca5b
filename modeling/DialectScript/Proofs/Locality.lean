import Mathlib
import DialectScript.Proofs.Region

/-!
# Evaluation is local

**Theorem (`EvaluationFrom.locality`).** Whichever way an evaluation ends, what stood at a place
that could not be reached from where the evaluation starts is as it was: an evaluation in a scope
starts from the scope, and a call from what is called and its arguments.

The proof follows the values. From a state that is confined to a region, a run *stays* in the region
(`Run.Stays`): its end is confined too, whichever way it ends, and what it gives back is inside. The
evaluators stay by induction on the fuel: they read only what is inside, and put only that into what
they write. A name is looked up in scopes that the current one leads to; a called function brings
the scope that it was declared in.
-/

namespace DialectScript

/-! ## Runs that stay in a region -/

namespace Run

variable {α β : Type} {r : Region} {s t : State} {x : Run α} {f : α → Run β}
  {Q : Heap → α → Prop} {R : Heap → β → Prop}

/-- From this state the run ends confined, whichever way it ends, and what it gives back is as it
should be in the heap that it leaves. -/
structure Stays (r : Region) (s : State) (x : Run α) (Q : Heap → α → Prop) : Prop where
  confined : r.Confined (x.final s).heap
  keeps : s.heap.Keeps (x.final s).heap
  result : ∀ a t, x s = .ok a t → Q t.heap a

namespace Stays

theorem of_ok {a : α} (hx : x s = .ok a t) (hc : r.Confined t.heap) (hk : s.heap.Keeps t.heap)
    (ha : Q t.heap a) : Stays r s x Q where
  confined := by rwa [final_of_ok hx]
  keeps := by rwa [final_of_ok hx]
  result b u hu := by
    rw [hx] at hu
    cases hu
    exact ha

theorem of_error {e : Stop} (hx : x s = .error e t) (hc : r.Confined t.heap)
    (hk : s.heap.Keeps t.heap) : Stays r s x Q where
  confined := by rwa [final_of_error hx]
  keeps := by rwa [final_of_error hx]
  result b u hu := by
    rw [hx] at hu
    cases hu

theorem value (hc : r.Confined s.heap) {a : α} (ha : Q s.heap a) : Stays r s (pure a) Q :=
  of_ok rfl hc (.refl _) ha

theorem stop (hc : r.Confined s.heap) (e : Stop) : Stays r s (throw e : Run α) Q :=
  of_error rfl hc (.refl _)

theorem fromHeap (hc : r.Confined s.heap) {f : Heap → α} (ha : Q s.heap (f s.heap)) :
    Stays r s (Run.fromHeap f) Q :=
  of_ok rfl hc (.refl _) ha

theorem ofExcept (hc : r.Confined s.heap) {result : Except Fault α}
    (ha : ∀ a, result = .ok a → Q s.heap a) : Stays r s (Run.ofExcept result) Q := by
  cases result with
  | ok a => exact value hc (ha a rfl)
  | error e => exact stop hc _

theorem propertyKey (hc : r.Confined s.heap) (property : Expr) :
    Stays r s property.propertyKey fun _ _ => True := by
  rw [property.propertyKey_standard]
  exact ofExcept hc fun _ _ => trivial

theorem change {f : Heap → Heap} (hc : r.Confined (f s.heap)) (hk : s.heap.Keeps (f s.heap)) :
    Stays r s (Run.change f) fun _ _ => True :=
  of_ok rfl hc hk trivial

theorem make {p : Place} {f : Heap → Nat × Heap} {Q : Heap → Nat → Prop}
    (hw : s.heap.Writes p (f s.heap).2) (hc : r.Confined (f s.heap).2)
    (hid : Q (f s.heap).2 (f s.heap).1) : Stays r s (Run.make f) Q :=
  of_ok rfl hc hw.keeps hid

theorem newScope (hc : r.Confined s.heap) {inner : Scope}
    (hparent : ∀ parent, inner.parent = some parent → r.Inside s.heap (.scope parent))
    (hbindings : r.HoldsBindings s.heap inner.bindings) :
    Stays r s (Run.make (·.newScope inner)) fun h id => r.Inside h (.scope id) :=
  have hnew := hc.newScope hparent hbindings
  .make (.newScope s.heap inner) hnew.1 hnew.2

theorem newObject (hc : r.Confined s.heap) {properties : Table Value}
    (hp : r.HoldsEntries s.heap properties) :
    Stays r s (Run.make (·.newObject properties)) fun h id => r.Inside h (.object id) :=
  have hnew := hc.newObject hp
  .make (.newObject s.heap properties) hnew.1 hnew.2

theorem newArray (hc : r.Confined s.heap) {elements : Array Value}
    (he : ∀ v ∈ elements, r.Holds s.heap v) :
    Stays r s (Run.make (·.newArray elements)) fun h id => r.Inside h (.array id) :=
  have hnew := hc.newArray he
  .make (.newArray s.heap elements) hnew.1 hnew.2

theorem newClosure (hc : r.Confined s.heap) {c : Closure}
    (hscope : r.Inside s.heap (.scope c.scope)) :
    Stays r s (Run.make (·.newClosure c)) fun h id => r.Inside h (.function id) :=
  have hnew := hc.newClosure hscope
  .make (.newClosure s.heap c) hnew.1 hnew.2

theorem onScope (hc : r.Confined s.heap) (name : String) {f : Heap → Except ScopeError Heap}
    (hf : ∀ h, f s.heap = .ok h → r.Confined h ∧ s.heap.Keeps h) :
    Stays r s (Run.onScope name f) fun _ _ => True := by
  cases hh : f s.heap with
  | ok h =>
    have happly : Run.onScope name f s = .ok () { s with heap := h } := by rw [Run.onScope, hh]
    exact of_ok happly (hf h hh).1 (hf h hh).2 trivial
  | error e =>
    have happly : Run.onScope name f s = .error (.fault (.ofCause (.ofScopeError name e))) s := by
      rw [Run.onScope, hh]
    exact of_error happly hc (.refl _)

theorem readVariable (hc : r.Confined s.heap) {scope : ScopeId}
    (hscope : r.Inside s.heap (.scope scope)) (name : String) :
    Stays r s (Run.readVariable scope name) r.Holds := by
  cases hv : s.heap.read scope name with
  | ok v =>
    have happly : Run.readVariable scope name s = .ok v s := by rw [Run.readVariable, hv]
    exact of_ok happly hc (.refl _) (hc.holds_read hscope hv)
  | error e =>
    have happly : Run.readVariable scope name s =
        .error (.fault (.ofCause (.ofScopeError name e))) s := by
      rw [Run.readVariable, hv]
    exact of_error happly hc (.refl _)

theorem bind (hx : Stays r s x Q)
    (hf : ∀ a t, r.Confined t.heap → s.heap.Keeps t.heap → Q t.heap a → Stays r t (f a) R) :
    Stays r s (x >>= f) R := by
  cases hxs : x s with
  | ok a t =>
    have hc := hx.confined
    have hk := hx.keeps
    rw [final_of_ok hxs] at hc hk
    have hrest := hf a t hc hk (hx.result a t hxs)
    have happly : (x >>= f) s = f a t := by simp only [Bind.bind, EStateM.bind, hxs]
    have hfinal : (x >>= f).final s = (f a).final t := by rw [final, happly, final]
    exact
      { confined := by rw [hfinal]; exact hrest.confined
        keeps := by rw [hfinal]; exact hk.trans hrest.keeps
        result := fun b u hu => hrest.result b u (happly ▸ hu) }
  | error e t =>
    have hc := hx.confined
    have hk := hx.keeps
    rw [final_of_error hxs] at hc hk
    have happly : (x >>= f) s = .error e t := by simp only [Bind.bind, EStateM.bind, hxs]
    exact of_error happly hc hk

theorem inCall (hc : r.Confined s.heap) (name : String)
    (hx : ∀ calls, Stays r { s with calls } x Q) : Stays r s (Run.inCall name x) Q := by
  cases hpush : s.calls.push name with
  | error e =>
    have happly : Run.inCall name x s = .error (.fault e) s := by simp only [Run.inCall, hpush]
    exact of_error happly hc (.refl _)
  | ok calls =>
    have h := hx calls
    have hfinal := final_inCall_of_push hpush x
    refine ⟨by rw [hfinal]; exact h.confined, by rw [hfinal]; exact h.keeps, fun a t ht => ?_⟩
    simp only [Run.inCall, hpush] at ht
    cases hxs : x { s with calls } with
    | ok b u =>
      rw [hxs] at ht
      cases ht
      exact h.result _ u hxs
    | error e u =>
      rw [hxs] at ht
      cases e <;> cases ht

end Stays

/-! ## Plain runs -/

variable {args : List Value} {id : ArrayId} {index v : Value}

theorem stays_readProperty (hc : r.Confined s.heap) {id : ObjectId}
    (hid : r.Inside s.heap (.object id)) (key : String) :
    Stays r s (readProperty id key) r.Holds := by
  cases hv : (s.heap.object id).get? key with
  | some v =>
    have happly : readProperty id key s = .ok v s := by
      simp only [readProperty, fromHeap, Bind.bind, EStateM.bind, hv]
      rfl
    exact .of_ok happly hc (.refl _) (hc.holds_properties hid key v hv)
  | none =>
    have happly : readProperty id key s = .error (.fault (.ofCause (.propertyNotFound key))) s := by
      simp only [readProperty, fromHeap, Bind.bind, EStateM.bind, hv]
      rfl
    exact .of_error happly hc (.refl _)

theorem stays_slotOf (hc : r.Confined s.heap) (id : ArrayId) (index : Value) :
    Stays r s (slotOf id index) fun _ _ => True :=
  .bind (.fromHeap (Q := fun _ _ => True) hc trivial) fun _ _ ht _ _ =>
    .ofExcept ht fun _ _ => trivial

theorem stays_readElement (hc : r.Confined s.heap) (hid : r.Inside s.heap (.array id))
    (index : Value) : Stays r s (readElement id index) r.Holds := by
  refine .bind (stays_slotOf hc id index) fun i t ht hk _ => .fromHeap ht ?_
  rw [Array.getD_eq_getD_getElem?]
  exact ht.holds_element? (hid.mono hk) fun v hv => Array.mem_of_getElem? hv

/-- The array that a built-in function works on is among its arguments. -/
theorem stays_arrayArgument (hc : r.Confined s.heap) (b : Builtin)
    (hargs : ∀ v ∈ args, r.Holds s.heap v) :
    Stays r s (b.arrayArgument args) fun h id => r.Inside h (.array id) := by
  match args with
  | [] => exact .stop hc _
  | .array id :: _ => exact .value hc (hargs _ List.mem_cons_self _ rfl)
  | .null :: _ | .boolean _ :: _ | .number _ :: _ | .string _ :: _ | .object _ :: _
  | .function _ :: _ | .builtin _ :: _ => exact .stop hc _

/-- An array inside may take elements that are inside. -/
theorem stays_modifyArray (hc : r.Confined s.heap) (hid : r.Inside s.heap (.array id))
    {f : Array Value → Array Value} (hf : ∀ v ∈ f (s.heap.array id), r.Holds s.heap v) :
    Stays r s (change (·.modifyArray id f)) fun _ _ => True :=
  .change (hc.modifyArray hid hf) (Heap.Writes.modifyArray s.heap id f).keeps

/-- An array takes elements from the arguments. -/
theorem stays_takeIn (hc : r.Confined s.heap) (b : Builtin) (hargs : ∀ v ∈ args, r.Holds s.heap v)
    {f : Array Value → Array Value} (hf : ∀ xs, ∀ v ∈ f xs, v ∈ xs ∨ v ∈ args) :
    Stays r s (do
      let id ← b.arrayArgument args
      change (·.modifyArray id f)
      Builtin.lengthOf id) r.Holds := by
  refine .bind (stays_arrayArgument hc b hargs) fun id t ht hk hid => ?_
  refine .bind (stays_modifyArray ht hid fun v hv => ?_) fun _ _ hu _ _ => ?_
  · rcases hf _ v hv with hv | hv
    · exact ht.holds_element hid hv
    · exact (hargs v hv).mono hk
  · exact .fromHeap hu (Region.holds_of_place?_eq_none rfl)

/-- An array gives out one of its elements, if there is any, and takes none. -/
theorem stays_giveOut (hc : r.Confined s.heap) (b : Builtin)
    (hargs : ∀ v ∈ args, r.Holds s.heap v) {pick : Array Value → Option Value}
    {f : Array Value → Array Value} (hpick : ∀ xs, ∀ v ∈ pick xs, v ∈ xs)
    (hf : ∀ xs, ∀ v ∈ f xs, v ∈ xs) :
    Stays r s (do
      let id ← b.arrayArgument args
      let picked ← fromHeap fun h => pick (h.array id)
      change (·.modifyArray id f)
      return picked.getD .null) r.Holds := by
  refine .bind (stays_arrayArgument hc b hargs) fun id t ht _ hid => ?_
  have hpicked : r.Holds t.heap ((pick (t.heap.array id)).getD .null) :=
    ht.holds_element? hid fun v hv => hpick _ v hv
  refine .bind (.fromHeap (Q := fun h picked => r.Holds h (picked.getD .null)) ht hpicked) ?_
  intro picked u hu hk hpicked
  have hid := hid.mono hk
  refine .bind (stays_modifyArray hu hid fun v hv => ?_) fun _ _ hw hk' _ => ?_
  · exact hu.holds_element hid (hf _ v hv)
  · exact .value hw (hpicked.mono hk')

theorem stays_builtin (hc : r.Confined s.heap) (b : Builtin)
    (hargs : ∀ v ∈ args, r.Holds s.heap v) : Stays r s (b.call args) r.Holds := by
  cases b with
  | print =>
    refine .bind (.fromHeap (Q := fun _ _ => True) hc trivial) fun line t ht _ _ => ?_
    refine .bind (Q := fun _ _ => True) (.of_ok rfl ht (.refl _) trivial) fun _ _ hu _ _ => ?_
    exact .value hu (Region.holds_of_place?_eq_none rfl)
  | not =>
    unfold Builtin.call
    dsimp only
    split
    · exact .value hc (Region.holds_of_place?_eq_none rfl)
    · exact .stop hc _
    · exact .stop hc _
  | str =>
    unfold Builtin.call
    dsimp only
    split
    · refine .bind (.fromHeap (Q := fun _ _ => True) hc trivial) fun _ _ ht _ _ => ?_
      exact .value ht (Region.holds_of_place?_eq_none rfl)
    · exact .stop hc _
  | length =>
    refine .bind (stays_arrayArgument hc _ hargs) fun id t ht _ _ => ?_
    exact .fromHeap ht (Region.holds_of_place?_eq_none rfl)
  | push =>
    refine stays_takeIn hc .push hargs fun xs v hv => ?_
    rw [← Array.mem_toList_iff, Array.toList_appendList, List.mem_append] at hv
    exact hv.imp Array.mem_toList_iff.1 List.mem_of_mem_tail
  | unshift =>
    refine stays_takeIn hc .unshift hargs fun xs v hv => ?_
    rw [Array.mem_append, List.mem_toArray] at hv
    exact hv.symm.imp_right List.mem_of_mem_tail
  | pop =>
    refine stays_giveOut hc .pop hargs (fun xs v hv => Array.mem_of_getElem? hv) fun xs v hv => ?_
    rw [← Array.mem_toList_iff, Array.toList_pop] at hv
    exact Array.mem_toList_iff.1 (List.dropLast_subset _ hv)
  | shift =>
    refine stays_giveOut hc .shift hargs (fun xs v hv => Array.mem_of_getElem? hv) fun xs v hv => ?_
    obtain ⟨k, hk, rfl⟩ := Array.mem_extract_iff_getElem.1 hv
    exact Array.getElem_mem _

end Run

/-! ## Values made in passing -/

/-- The result of an operator holds no place. -/
theorem Operator.place?_of_apply {operator : Operator} {left right v : Value}
    (h : operator.apply left right = .ok v) : v.place? = none := by
  unfold apply at h
  cases hr : operator.result? left right with
  | none =>
    rw [hr] at h
    cases h
  | some w =>
    rw [hr] at h
    cases h
    unfold result? at hr
    split at hr
    · split at hr
      · cases hr
        rfl
      · cases hr
    · split at hr
      · cases hr
        rfl
      · cases hr
    · split at hr
      · cases operator <;> cases hr <;> rfl
      · cases hr

/-- The bindings of a call hold the arguments. -/
theorem Region.holdsBindings_bind {r : Region} {h : Heap} {params : List String}
    {args : List Value} {bindings bindings' : Table Binding} (hargs : ∀ v ∈ args, r.Holds h v)
    (hb : r.HoldsBindings h bindings) (hbind : Closure.bind params args bindings = .ok bindings') :
    r.HoldsBindings h bindings' := by
  induction params generalizing args bindings with
  | nil =>
    cases hbind
    exact hb
  | cons param params ih =>
    rw [Closure.bind] at hbind
    split at hbind
    · cases hbind
    · refine ih (fun v hv => hargs v (List.mem_of_mem_tail hv)) (hb.insert param ?_) hbind
      cases args with
      | nil => exact holds_of_place?_eq_none rfl
      | cons v args => exact hargs v List.mem_cons_self

/-! ## Evaluators -/

open Run

/-- With this fuel, every evaluator stays in the region if its scope or its values are inside. -/
structure AllStay (r : Region) (n : Nat) : Prop where
  expr : ∀ {s scope}, r.Confined s.heap → r.Inside s.heap (.scope scope) →
    ∀ e, Stays r s (Expr.eval n scope e) r.Holds
  assign : ∀ {s scope}, r.Confined s.heap → r.Inside s.heap (.scope scope) →
    ∀ target value, Stays r s (Expr.evalAssign n scope target value) r.Holds
  properties : ∀ {s scope}, r.Confined s.heap → r.Inside s.heap (.scope scope) →
    ∀ ps {entries}, r.HoldsEntries s.heap entries →
      Stays r s (evalProperties n scope ps entries) r.HoldsEntries
  list : ∀ {s scope}, r.Confined s.heap → r.Inside s.heap (.scope scope) →
    ∀ es, Stays r s (evalList n scope es) fun h vs => ∀ v ∈ vs, r.Holds h v
  call : ∀ {s : State}, r.Confined s.heap → ∀ {f args}, r.Holds s.heap f →
    (∀ v ∈ args, r.Holds s.heap v) → Stays r s (Value.call n f args) r.Holds
  stmt : ∀ {s scope}, r.Confined s.heap → r.Inside s.heap (.scope scope) →
    ∀ st, Stays r s (Stmt.eval n scope st) r.Holds
  loop : ∀ {s scope}, r.Confined s.heap → r.Inside s.heap (.scope scope) →
    ∀ c body {last}, r.Holds s.heap last → Stays r s (evalLoop n scope c body last) r.Holds
  body : ∀ {s scope}, r.Confined s.heap → r.Inside s.heap (.scope scope) →
    ∀ b {last}, r.Holds s.heap last → Stays r s (evalBody n scope b last) r.Holds

namespace AllStay

variable {r : Region} {n : Nat} {s : State} {scope : ScopeId}

theorem zero : AllStay r 0 where
  expr hc _ _ := by rw [Expr.eval]; exact .stop hc _
  assign hc _ _ _ := by rw [Expr.evalAssign]; exact .stop hc _
  properties hc _ _ _ _ := by rw [evalProperties]; exact .stop hc _
  list hc _ _ := by rw [evalList]; exact .stop hc _
  call hc _ _ _ _ := by rw [Value.call]; exact .stop hc _
  stmt hc _ _ := by rw [Stmt.eval]; exact .stop hc _
  loop hc _ _ _ _ _ := by rw [evalLoop]; exact .stop hc _
  body hc _ _ _ _ := by rw [evalBody]; exact .stop hc _

theorem expr_succ (ih : AllStay r n) (hc : r.Confined s.heap)
    (hscope : r.Inside s.heap (.scope scope)) (e : Expr) :
    Stays r s (Expr.eval (n + 1) scope e) r.Holds := by
  cases e with
  | identifier name =>
    rw [Expr.eval]
    exact .readVariable hc hscope name
  | number _ | string _ =>
    rw [Expr.eval]
    exact .value hc (Region.holds_of_place?_eq_none rfl)
  | binary operator left right =>
    rw [Expr.eval]
    refine (ih.expr hc hscope left).bind fun l t ht hk _ => ?_
    refine (ih.expr ht (hscope.mono hk) right).bind fun r u hu _ _ => ?_
    exact .ofExcept hu fun v hv => Region.holds_of_place?_eq_none (Operator.place?_of_apply hv)
  | assign target value =>
    rw [Expr.eval]
    exact ih.assign hc hscope target value
  | object properties =>
    rw [Expr.eval]
    refine (ih.properties hc hscope properties Region.holdsEntries_empty).bind
      fun entries t ht _ hentries => ?_
    refine .bind (.newObject ht hentries) fun id u hu _ hid => ?_
    exact .value hu (hid.holds rfl)
  | array elements =>
    rw [Expr.eval]
    refine (ih.list hc hscope elements).bind fun vs t ht _ hvs => ?_
    refine .bind (.newArray ht fun v hv => hvs v (List.mem_toArray.1 hv)) fun id u hu _ hid => ?_
    exact .value hu (hid.holds rfl)
  | member object property access =>
    rw [Expr.eval]
    refine (ih.expr hc hscope object).bind fun container t ht hk hcontainer => ?_
    -- A container that is held is inside, so what is read from it is held as well.
    cases container with
    | object id =>
      cases access with
      | dot =>
        refine .bind (.propertyKey ht property) fun key u hu hk' _ => ?_
        exact stays_readProperty hu ((hcontainer _ rfl).mono hk') key
      | bracket => exact .stop ht _
    | array id =>
      cases access with
      | dot => exact .stop ht _
      | bracket =>
        refine (ih.expr ht (hscope.mono hk) property).bind fun index u hu hk' _ => ?_
        exact stays_readElement hu ((hcontainer _ rfl).mono hk') index
    | null | boolean _ | number _ | string _ | function _ | builtin _ => exact .stop ht _
  | call callee arguments =>
    rw [Expr.eval]
    refine (ih.expr hc hscope callee).bind fun f t ht hk hf => ?_
    refine (ih.list ht (hscope.mono hk) arguments).bind fun vs u hu hk' hvs => ?_
    exact ih.call hu (hf.mono hk') hvs

theorem assign_succ (ih : AllStay r n) (hc : r.Confined s.heap)
    (hscope : r.Inside s.heap (.scope scope)) (target value : Expr) :
    Stays r s (Expr.evalAssign (n + 1) scope target value) r.Holds := by
  cases target with
  | identifier name =>
    rw [Expr.evalAssign]
    refine (ih.expr hc hscope value).bind fun v t ht hk hv => ?_
    refine .bind (.onScope ht name fun h ha => ht.assign (hscope.mono hk) hv ha)
      fun _ u hu hk' _ => ?_
    exact .value hu (hv.mono hk')
  | member object property access =>
    rw [Expr.evalAssign]
    refine (ih.expr hc hscope object).bind fun container t ht hk hcontainer => ?_
    -- What was inside or held still is after every step, and is carried over to the next state.
    have hscope := hscope.mono hk
    cases container with
    | object id =>
      cases access with
      | dot =>
        refine .bind (.propertyKey ht property) fun key u hu hk' _ => ?_
        refine .bind (stays_readProperty hu ((hcontainer _ rfl).mono hk') key)
          fun _ w hw hk'' _ => ?_
        have hk' := hk'.trans hk''
        refine (ih.expr hw (hscope.mono hk') value).bind fun v s' hs' hk'' hv => ?_
        have hid := (hcontainer _ rfl).mono (hk'.trans hk'')
        refine .bind (stays_readProperty hs' hid key) fun _ t' ht' hk'' _ => ?_
        have hid := hid.mono hk''
        have hv := hv.mono hk''
        refine .bind (.change (ht'.setProperty hid key hv) (Heap.Writes.modifyObject _ id _).keeps)
          fun _ u' hu' hk'' _ => ?_
        exact .value hu' (hv.mono hk'')
      | bracket => exact .stop ht _
    | array id =>
      cases access with
      | dot => exact .stop ht _
      | bracket =>
        refine (ih.expr ht hscope property).bind fun index u hu hk' _ => ?_
        refine .bind (stays_slotOf hu id index) fun _ w hw hk'' _ => ?_
        have hk' := hk'.trans hk''
        refine (ih.expr hw (hscope.mono hk') value).bind fun v s' hs' hk'' hv => ?_
        have hk' := hk'.trans hk''
        refine .bind (stays_slotOf hs' id index) fun i t' ht' hk'' _ => ?_
        have hid := (hcontainer _ rfl).mono (hk'.trans hk'')
        have hv := hv.mono hk''
        refine .bind (stays_modifyArray ht' hid fun w hw => ?_) fun _ u' hu' hk'' _ => ?_
        · rcases Array.mem_or_eq_of_mem_setIfInBounds hw with hw | rfl
          · exact ht'.holds_element hid hw
          · exact hv
        · exact .value hu' (hv.mono hk'')
    | null | boolean _ | number _ | string _ | function _ | builtin _ => exact .stop ht _
  | number _ | string _ | binary _ _ _ | assign _ _ | object _ | array _ | call _ _ =>
    simp only [Expr.evalAssign]
    exact .stop hc _

theorem properties_succ (ih : AllStay r n) (hc : r.Confined s.heap)
    (hscope : r.Inside s.heap (.scope scope)) (ps : List (Property Expr)) {entries : Table Value}
    (hentries : r.HoldsEntries s.heap entries) :
    Stays r s (evalProperties (n + 1) scope ps entries) r.HoldsEntries := by
  match ps with
  | [] =>
    rw [evalProperties]
    exact .value hc hentries
  | .shorthand key :: rest =>
    rw [evalProperties]
    refine (Stays.readVariable hc hscope key).bind fun v t ht hk hv => ?_
    exact ih.properties ht (hscope.mono hk) rest ((hentries.mono hk).insert key hv)
  | .pair key value :: rest =>
    rw [evalProperties]
    refine (ih.expr hc hscope value).bind fun v t ht hk hv => ?_
    exact ih.properties ht (hscope.mono hk) rest ((hentries.mono hk).insert key hv)

theorem list_succ (ih : AllStay r n) (hc : r.Confined s.heap)
    (hscope : r.Inside s.heap (.scope scope)) (es : List Expr) :
    Stays r s (evalList (n + 1) scope es) fun h vs => ∀ v ∈ vs, r.Holds h v := by
  cases es with
  | nil =>
    rw [evalList]
    exact .value hc fun v hv => absurd hv List.not_mem_nil
  | cons e rest =>
    rw [evalList]
    refine (ih.expr hc hscope e).bind fun v t ht hk hv => ?_
    refine (ih.list ht (hscope.mono hk) rest).bind fun vs u hu hk' hvs => ?_
    refine .value hu fun w hw => ?_
    rcases List.mem_cons.1 hw with rfl | hw
    · exact hv.mono hk'
    · exact hvs w hw

/-- A called function brings the scope it was declared in; its body runs in a new scope inside
that one. -/
theorem call_succ (ih : AllStay r n) (hc : r.Confined s.heap) {f : Value} {args : List Value}
    (hf : r.Holds s.heap f) (hargs : ∀ v ∈ args, r.Holds s.heap v) :
    Stays r s (Value.call (n + 1) f args) r.Holds := by
  cases f with
  | builtin b =>
    rw [Value.call]
    exact stays_builtin hc b hargs
  | function id =>
    rw [Value.call]
    -- The function is held, so the scope that it captured is inside.
    have hscope : r.Inside s.heap (.scope (s.heap.closure id).scope) :=
      hc.closed _ _ (hf _ rfl) .captured
    refine .bind (.fromHeap (Q := fun h c => r.Inside h (.scope c.scope)) hc hscope)
      fun c t ht hk hscope => .inCall ht c.name fun calls => ?_
    have hbind : Stays r { t with calls } (Run.ofExcept (Closure.bind c.params args .empty))
        r.HoldsBindings :=
      .ofExcept (s := { t with calls }) ht fun _ =>
        Region.holdsBindings_bind (fun v hv => (hargs v hv).mono hk) fun _ _ hb => by cases hb
    refine hbind.bind fun bindings u hu hk' hbindings => ?_
    refine .bind (.newScope hu (fun parent hparent => ?_) hbindings) fun inner w hw _ hinner => ?_
    · cases hparent
      exact hscope.mono hk'
    · exact ih.body hw hinner c.body (Region.holds_of_place?_eq_none rfl)
  | null | boolean _ | number _ | string _ | object _ | array _ =>
    simp only [Value.call]
    exact .stop hc _

/-- A condition is tested, and the two outcomes go on in their own ways. -/
theorem test {x : Run Value} {onTrue onFalse : Run Value} (hx : Stays r s x r.Holds)
    (htrue : ∀ t : State, r.Confined t.heap → s.heap.Keeps t.heap → Stays r t onTrue r.Holds)
    (hfalse : ∀ t : State, r.Confined t.heap → s.heap.Keeps t.heap → Stays r t onFalse r.Holds) :
    Stays r s
      (x >>= fun v => match v with
        | .boolean true => onTrue
        | .boolean false => onFalse
        | v => fault (.nonBooleanCondition v.type)) r.Holds := by
  refine hx.bind fun v t ht hk _ => ?_
  match v with
  | .boolean true => exact htrue t ht hk
  | .boolean false => exact hfalse t ht hk
  | .null | .number _ | .string _ | .object _ | .array _ | .function _ | .builtin _ =>
    exact .stop ht _

theorem stmt_succ (ih : AllStay r n) (hc : r.Confined s.heap)
    (hscope : r.Inside s.heap (.scope scope)) (st : Stmt) :
    Stays r s (Stmt.eval (n + 1) scope st) r.Holds := by
  -- Only a declaration writes by itself, and only into the scope of the statement.
  match st with
  | .declare mutability name none =>
    rw [Stmt.eval]
    have hnull : r.Holds s.heap .null := Region.holds_of_place?_eq_none rfl
    refine .bind (.onScope hc name fun h hd => hc.declare hscope hnull hd) fun _ t ht hk _ => ?_
    exact .value ht (hnull.mono hk)
  | .declare mutability name (some init) =>
    rw [Stmt.eval]
    refine (ih.expr hc hscope init).bind fun v t ht hk hv => ?_
    refine .bind (.onScope ht name fun h hd => ht.declare (hscope.mono hk) hv hd)
      fun _ u hu hk' _ => ?_
    exact .value hu (hv.mono hk')
  | .function name params body =>
    rw [Stmt.eval]
    refine .bind (.newClosure hc hscope) fun id t ht hk hid => ?_
    have hf : r.Holds t.heap (.function id) := hid.holds rfl
    refine .bind (.onScope ht name fun h hd => ht.declare (hscope.mono hk) hf hd)
      fun _ u hu hk' _ => ?_
    exact .value hu (hf.mono hk')
  | .branch condition thenBody elseBody =>
    rw [Stmt.eval]
    have hnull {h : Heap} : r.Holds h .null := Region.holds_of_place?_eq_none rfl
    exact test (ih.expr hc hscope condition)
      (fun t ht hk => ih.body ht (hscope.mono hk) thenBody hnull)
      (fun t ht hk => ih.body ht (hscope.mono hk) (elseBody.getD []) hnull)
  | .loop condition body =>
    rw [Stmt.eval]
    exact ih.loop hc hscope condition body (Region.holds_of_place?_eq_none rfl)
  | .importPath _ =>
    rw [Stmt.eval]
    exact .value hc (Region.holds_of_place?_eq_none rfl)
  | .expression e =>
    rw [Stmt.eval]
    exact ih.expr hc hscope e

theorem loop_succ (ih : AllStay r n) (hc : r.Confined s.heap)
    (hscope : r.Inside s.heap (.scope scope)) (condition : Expr) (body : List Stmt) {last : Value}
    (hlast : r.Holds s.heap last) :
    Stays r s (evalLoop (n + 1) scope condition body last) r.Holds := by
  rw [evalLoop]
  refine test (ih.expr hc hscope condition) (fun t ht hk => ?_)
    (fun t ht hk => .value ht (hlast.mono hk))
  have hscope := hscope.mono hk
  have hnull : r.Holds t.heap .null := Region.holds_of_place?_eq_none rfl
  exact (ih.body ht hscope body hnull).bind fun v u hu hk' hv =>
    ih.loop hu (hscope.mono hk') condition body hv

theorem body_succ (ih : AllStay r n) (hc : r.Confined s.heap)
    (hscope : r.Inside s.heap (.scope scope)) (b : List Stmt) {last : Value}
    (hlast : r.Holds s.heap last) : Stays r s (evalBody (n + 1) scope b last) r.Holds := by
  cases b with
  | nil =>
    rw [evalBody]
    exact .value hc hlast
  | cons st rest =>
    rw [evalBody]
    exact (ih.stmt hc hscope st).bind fun v t ht hk hv => ih.body ht (hscope.mono hk) rest hv

end AllStay

/-- With any fuel, every evaluator stays in the region. -/
theorem allStay (r : Region) (n : Nat) : AllStay r n := by
  induction n with
  | zero => exact .zero
  | succ n ih =>
    exact
      { expr := ih.expr_succ
        assign := ih.assign_succ
        properties := ih.properties_succ
        list := ih.list_succ
        call := ih.call_succ
        stmt := ih.stmt_succ
        loop := ih.loop_succ
        body := ih.body_succ }

/-! ## The theorem -/

/-- The evaluations with the places that each starts from. -/
inductive EvaluationFrom (fuel : Nat) : (Place → Prop) → Run Value → Prop
  | statement (scope : ScopeId) (s : Stmt) :
      EvaluationFrom fuel (· = .scope scope) (s.eval fuel scope)
  | expression (scope : ScopeId) (e : Expr) :
      EvaluationFrom fuel (· = .scope scope) (e.eval fuel scope)
  | program (scope : ScopeId) (p : Program) :
      EvaluationFrom fuel (· = .scope scope) (p.run fuel scope)
  | call (callee : Value) (args : List Value) :
      EvaluationFrom fuel (fun p => ∃ v ∈ callee :: args, v.place? = some p)
        (callee.call fuel args)

namespace EvaluationFrom

variable {fuel : Nat} {roots : Place → Prop} {x : Run Value}

theorem stays (hx : EvaluationFrom fuel roots x) (s : State) :
    Stays ⟨s.heap, roots⟩ s x (Region.Holds ⟨s.heap, roots⟩) := by
  have hall := allStay ⟨s.heap, roots⟩ fuel
  have hc := Region.confined_heap ⟨s.heap, roots⟩
  have hroots {root : Place} (hroot : roots root) :
      Region.Inside ⟨s.heap, roots⟩ s.heap root := .inl ⟨root, hroot, .refl⟩
  cases hx with
  | statement scope st => exact hall.stmt hc (hroots rfl) st
  | expression scope e => exact hall.expr hc (hroots rfl) e
  | program scope p => exact hall.body hc (hroots rfl) p (Region.holds_of_place?_eq_none rfl)
  | call callee args =>
    exact hall.call hc (fun p hp => hroots ⟨callee, List.mem_cons_self, hp⟩)
      fun v hv p hp => hroots ⟨v, List.mem_cons_of_mem callee hv, hp⟩

/-- Whichever way an evaluation ends, what it could not reach is as it was. -/
theorem locality (hx : EvaluationFrom fuel roots x) (s : State) {p : Place} (hp : s.heap.Has p)
    (hout : ∀ root, roots root → ¬ s.heap.Reaches root p) :
    s.heap.Agrees (x.final s).heap p := by
  refine (hx.stays s).confined.agrees p hp fun hin => ?_
  rcases hin with ⟨root, hroot, hreach⟩ | ⟨-, hnew⟩
  · exact hout root hroot hreach
  · exact hnew hp

/-- A function writes to its argument and to the scope it was declared in, and then fails; an object
that neither of them leads to is as it was. -/
theorem locality_captured :
    let body : List Stmt :=
      [.expression (.assign (.identifier "n") (.identifier "p")),
        .expression (.assign (.member (.identifier "p") (.identifier "k") .dot) (.identifier "p")),
        .expression (.identifier "q")]
    let properties : Table Value := .insert .empty "k" .null
    let heap : Heap :=
      ⟨#[⟨.insert .empty "n" ⟨.null, .mutable⟩, none⟩], #[properties, properties], #[],
        #[⟨"f", ["p"], body, 0⟩]⟩
    let s : State := ⟨heap, default, .empty none⟩
    let x := Value.call 8 (.function 0) [.object 0]
    x s = .error (.fault ⟨.undeclaredVariable "q", some ["f"]⟩) (x.final s) ∧
      ((x.final s).heap.object 0).get? "k" = some (.object 0) ∧
      ((x.final s).heap.scope 0).bindings.get? "n" = some ⟨.object 0, .mutable⟩ ∧
      ¬ s.heap.Reaches (.function 0) (.object 1) ∧ ¬ s.heap.Reaches (.object 0) (.object 1) ∧
      (x.final s).heap.object 1 = properties := by
  intro body properties heap s x
  have hreach {root : Place} (hroot : root ∈ [Place.function 0, .scope 0, .object 0]) {p : Place}
      (hp : s.heap.Reaches root p) : p ∈ [Place.function 0, .scope 0, .object 0] := by
    -- The function, its scope and the first object refer to nothing but each other.
    induction hp with
    | refl => exact hroot
    | @tail p q _ href ih =>
      simp only [List.mem_cons, List.not_mem_nil, or_false] at ih
      rcases ih with rfl | rfl | rfl
      · cases href
        decide
      · cases href with
        | parent hparent => cases hparent
        | binding hb hq =>
          rw [show (s.heap.scope 0).bindings = .insert .empty "n" ⟨.null, .mutable⟩ from rfl,
            Table.get?_insert] at hb
          split at hb <;> cases hb
          cases hq
      · cases href with
        | property hv hq =>
          rw [show s.heap.object 0 = .insert .empty "k" .null from rfl, Table.get?_insert] at hv
          split at hv <;> cases hv
          cases hq
  have hfunction : ¬ s.heap.Reaches (.function 0) (.object 1) := fun h => by
    have := hreach (by decide) h
    revert this
    decide
  have hobject : ¬ s.heap.Reaches (.object 0) (.object 1) := fun h => by
    have := hreach (by decide) h
    revert this
    decide
  have hx : EvaluationFrom 8 _ x := .call (.function 0) [.object 0]
  have hsame : s.heap.Agrees (x.final s).heap (.object 1) := by
    refine hx.locality s (Nat.lt_succ_self 1) fun root hroot => ?_
    obtain ⟨v, hv, hroot⟩ := hroot
    rcases List.mem_cons.1 hv with rfl | hv
    · cases hroot
      exact hfunction
    · cases List.mem_singleton.1 hv
      cases hroot
      exact hobject
  refine ⟨by subst x s heap body properties; cbv, ?_, ?_, hfunction, hobject, hsame⟩
  · subst x s heap body properties
    cbv
  · subst x s heap body properties
    cbv

end EvaluationFrom

end DialectScript
