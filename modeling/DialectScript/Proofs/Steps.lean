import DialectScript.Proofs.Calls
import Mathlib.Logic.Relation

/-!
# What an evaluation does to the heap

An evaluation changes the heap by steps of eight kinds (`Heap.Step`). Each names what it needs: a
scope is made inside one that is there, a function is declared in one that is there, and a property
is overwritten only if the object has it.

* `Heap.WellScoped` — what all of this relies on: every scope is younger than the scope around it,
  and every function was declared in a scope that is there. A step keeps it.
* `Run.Scoped.steps` — **an evaluation in a scope that is there changes the heap by steps**.
* `Run.Visits` — the states that a run passes through; up to each of them, too, the heap has changed
  by steps.

A fact about the heap that every step keeps, every evaluation keeps, whichever way it ends.
-/

namespace DialectScript

namespace Heap

/-! ## Steps -/

/-- One change that an evaluation makes to the heap. -/
inductive Step (h : Heap) : Heap → Prop
  | newScope {s : Scope} : (∀ parent, s.parent = some parent → parent < h.scopes.size) →
      Step h (h.newScope s).2
  | newObject (properties : Table Value) : Step h (h.newObject properties).2
  | newArray (elements : Array Value) : Step h (h.newArray elements).2
  | newClosure {c : Closure} : c.scope < h.scopes.size → Step h (h.newClosure c).2
  | declare {h' : Heap} {id : ScopeId} {name : String} {b : Binding} :
      h.declare id name b = .ok h' → Step h h'
  | assign {h' : Heap} {id : ScopeId} {name : String} {v : Value} :
      h.assign id name v = .ok h' → Step h h'
  | setProperty {id : ObjectId} {key : String} (v : Value) :
      (h.object id).contains key = true → Step h (h.modifyObject id (·.insert key v))
  | modifyArray (id : ArrayId) (f : Array Value → Array Value) : Step h (h.modifyArray id f)

/-- Any number of changes, one after another. -/
abbrev Steps : Heap → Heap → Prop := Relation.ReflTransGen Step

/-- What can be made of the empty heap, one change after another. -/
def Reachable (h : Heap) : Prop := Steps empty h

variable {h h' : Heap}

/-- A step takes no scope away. -/
theorem Step.scopes_le (h₁ : Step h h') : h.scopes.size ≤ h'.scopes.size := by
  cases h₁ with
  | newScope _ =>
    rw [size_scopes_newScope]
    exact Nat.le_succ _
  | newObject | newArray | newClosure | setProperty | modifyArray => exact Nat.le_refl _
  | declare hd =>
    rw [(declare_eq_ok hd).2]
    exact Nat.le_of_eq (size_scopes_modifyBindings h _ _).symm
  | assign ha =>
    obtain ⟨holder, old, -, -, rfl⟩ := assign_eq_ok ha
    exact Nat.le_of_eq (size_scopes_modifyBindings h holder _).symm

theorem Steps.scopes_le (hs : h.Steps h') : h.scopes.size ≤ h'.scopes.size := by
  induction hs with
  | refl => exact Nat.le_refl _
  | tail _ hstep ih => exact Nat.le_trans ih hstep.scopes_le

/-! ## Properties -/

/-- A step takes no object away, and leaves the properties of each in place. -/
theorem Step.object_keys (h₁ : Step h h') :
    h.objects.size ≤ h'.objects.size ∧
      ∀ id < h.objects.size, (h'.object id).keys = (h.object id).keys := by
  cases h₁ with
  | newScope | newArray | newClosure | modifyArray => exact ⟨Nat.le_refl _, fun _ _ => rfl⟩
  | newObject properties =>
    refine ⟨Nat.le_of_lt (Nat.lt_of_lt_of_eq (Nat.lt_succ_self _) (Array.size_push _).symm), ?_⟩
    intro id hid
    rw [object_newObject, if_neg (Nat.ne_of_lt hid)]
  | declare hd =>
    rw [(declare_eq_ok hd).2]
    exact ⟨Nat.le_refl _, fun _ _ => rfl⟩
  | assign ha =>
    obtain ⟨holder, old, -, -, rfl⟩ := assign_eq_ok ha
    exact ⟨Nat.le_refl _, fun _ _ => rfl⟩
  | @setProperty id key v hkey =>
    refine ⟨Nat.le_of_eq Array.size_modify.symm, fun other _ => ?_⟩
    rw [object_modifyObject]
    split
    · next h =>
      rw [h.1]
      exact Table.keys_insert_of_contains hkey v
    · rfl

theorem Steps.object_keys (hs : h.Steps h') :
    h.objects.size ≤ h'.objects.size ∧
      ∀ id < h.objects.size, (h'.object id).keys = (h.object id).keys := by
  induction hs with
  | refl => exact ⟨Nat.le_refl _, fun _ _ => rfl⟩
  | tail _ hstep ih =>
    refine ⟨Nat.le_trans ih.1 hstep.object_keys.1, fun id hid => ?_⟩
    rw [hstep.object_keys.2 id (Nat.lt_of_lt_of_le hid ih.1), ih.2 id hid]

theorem lt_of_contains {id : ObjectId} {key : String}
    (hkey : (h.object id).contains key = true) : id < h.objects.size := by
  refine Nat.lt_of_not_le fun hle => ?_
  rw [object, getD_of_size_le hle] at hkey
  cases hkey

/-- A property that an object has stays. -/
theorem Steps.contains (hs : h.Steps h') {id : ObjectId} {key : String}
    (hkey : (h.object id).contains key = true) : (h'.object id).contains key = true := by
  have hid := lt_of_contains hkey
  rw [Table.contains_iff_mem_keys] at hkey ⊢
  rwa [hs.object_keys.2 id hid]

/-! ## Well-scoped heaps -/

/-- Scopes are made inside older ones, and functions are declared in scopes that are there. -/
structure WellScoped (h : Heap) : Prop where
  parent_lt : ∀ id parent, (h.scope id).parent = some parent → parent < id
  closure_lt : ∀ c ∈ h.closures, c.scope < h.scopes.size

namespace WellScoped

theorem empty : WellScoped Heap.empty where
  parent_lt id parent hparent := by
    rw [scope, Array.getD_eq_getD_getElem?] at hparent
    cases hparent
  closure_lt c hc := absurd hc (Array.not_mem_empty c)

/-- A function is found in a scope that is there, if there is any. -/
theorem closure_scope_lt (hh : h.WellScoped) (h0 : 0 < h.scopes.size) (id : FunctionId) :
    (h.closure id).scope < h.scopes.size := by
  rw [closure, Array.getD_eq_getD_getElem?]
  cases hc : h.closures[id]? with
  | none => exact h0
  | some c => exact hh.closure_lt c (Array.mem_of_getElem? hc)

theorem modifyBindings (hh : h.WellScoped) (id : ScopeId)
    (f : Table Binding → Table Binding) : (h.modifyBindings id f).WellScoped where
  parent_lt other parent hparent := by
    rw [scope_modifyBindings] at hparent
    split at hparent
    · next hother =>
      rw [hother.1]
      exact hh.parent_lt id parent hparent
    · exact hh.parent_lt other parent hparent
  closure_lt c hc := by
    rw [size_scopes_modifyBindings]
    exact hh.closure_lt c hc

theorem step (hh : h.WellScoped) (h₁ : Step h h') : h'.WellScoped := by
  -- A new scope or function refers to a scope that is there; nothing else refers to another one.
  cases h₁ with
  | @newScope s hs =>
    refine ⟨fun id parent hparent => ?_, fun c hc => ?_⟩
    · rw [scope_newScope] at hparent
      split at hparent
      · next hid =>
        rw [hid]
        exact hs parent hparent
      · exact hh.parent_lt id parent hparent
    · rw [size_scopes_newScope]
      exact Nat.lt_succ_of_lt (hh.closure_lt c hc)
  | newClosure hc =>
    refine ⟨hh.parent_lt, fun d hd => ?_⟩
    rcases Array.mem_push.1 hd with hd | rfl
    · exact hh.closure_lt d hd
    · exact hc
  | newObject | newArray | setProperty | modifyArray => exact ⟨hh.parent_lt, hh.closure_lt⟩
  | declare hd =>
    rw [(declare_eq_ok hd).2]
    exact hh.modifyBindings _ _
  | assign ha =>
    obtain ⟨holder, old, -, -, rfl⟩ := assign_eq_ok ha
    exact hh.modifyBindings _ _

theorem steps (hh : h.WellScoped) (hs : h.Steps h') : h'.WellScoped := by
  induction hs with
  | refl => exact hh
  | tail _ hstep ih => exact ih.step hstep

end WellScoped

theorem Reachable.wellScoped (hh : h.Reachable) : h.WellScoped := WellScoped.empty.steps hh

end Heap

/-! ## Evaluations go by steps -/

/-- The state in which the body of a call begins. -/
def State.entered (s : State) (c : Closure) (calls : CallStack) (bindings : Table Binding) :
    State :=
  { s with heap := (s.heap.newScope ⟨bindings, some c.scope⟩).2, calls }

namespace Run

variable {α β : Type} {scope : ScopeId} {x : Run α}

/-- Reading a property finds it, if the object has it, and changes nothing. -/
theorem readProperty_eq (id : ObjectId) (key : String) (s : State) :
    readProperty id key s = match (s.heap.object id).get? key with
      | some v => .ok v s
      | none => .error (.fault (.ofCause (.propertyNotFound key))) s := by
  simp only [readProperty, fromHeap, bind, EStateM.bind]
  cases (s.heap.object id).get? key <;> rfl

/-- A property gets a new value only if the object has it. -/
theorem store_eq (id : ObjectId) (key : String) (v : Value) (s : State) :
    store id key v s =
      if (s.heap.object id).contains key then
        .ok v { s with heap := s.heap.modifyObject id (·.insert key v) }
      else .error (.fault (.ofCause (.propertyNotFound key))) s := by
  cases hkey : (s.heap.object id).get? key <;>
    simp only [store, bind, EStateM.bind, readProperty_eq, Table.contains, hkey] <;> rfl

/-- Nothing is evaluated for a property that is missing. -/
theorem overwrite_eq (id : ObjectId) (key : String) (x : Run Value) (s : State) :
    overwrite id key x s =
      if (s.heap.object id).contains key then (x >>= store id key) s
      else .error (.fault (.ofCause (.propertyNotFound key))) s := by
  cases hkey : (s.heap.object id).get? key <;>
    simp only [overwrite, bind, EStateM.bind, readProperty_eq, Table.contains, hkey] <;> rfl

/-- A property is overwritten only if the object has it and the new value is found. -/
theorem final_overwrite (id : ObjectId) (key : String) (x : Run Value) (s : State) :
    (overwrite id key x).final s = s ∨
      (s.heap.object id).contains key = true ∧
        ((overwrite id key x).final s = x.final s ∨
          ∃ v, (overwrite id key x).final s = { x.final s with
            heap := (x.final s).heap.modifyObject id (·.insert key v) }) := by
  by_cases hkey : (s.heap.object id).contains key = true
  · refine .inr ⟨hkey, ?_⟩
    rw [final, overwrite_eq, if_pos hkey, ← final]
    rcases final_bind x (store id key) s with ⟨v, -, hfinal⟩ | hfinal
    · rw [hfinal, final, store_eq]
      by_cases hthere : ((x.final s).heap.object id).contains key = true
      · rw [if_pos hthere]
        exact .inr ⟨v, rfl⟩
      · rw [if_neg hthere]
        exact .inl rfl
    · exact .inl hfinal
  · left
    rw [final, overwrite_eq, if_neg hkey]

/-- A call that fails before its body begins changes nothing; otherwise the heap is as the body has
left it. -/
theorem final_apply (id : FunctionId) (args : List Value) (body : Closure → ScopeId → Run α)
    (s : State) :
    (apply id args body).final s = s ∨
      ∃ calls bindings, s.calls.push (s.heap.closure id).name = .ok calls ∧
        Closure.bind (s.heap.closure id).params args .empty = .ok bindings ∧
        ((apply id args body).final s).heap =
          ((body (s.heap.closure id) s.heap.scopes.size).final
            (s.entered (s.heap.closure id) calls bindings)).heap := by
  generalize hc : s.heap.closure id = c
  have hfirst : (apply id args body).final s =
      (inCall c.name do
        let bindings ← ofExcept (Closure.bind c.params args .empty)
        let scope ← make (·.newScope ⟨bindings, some c.scope⟩)
        body c scope).final s := by
    rw [← hc]
    rfl
  rw [hfirst]
  rcases final_inCall c.name _ s with ⟨calls, hpush, hfinal⟩ | hfinal
  · rw [hfinal]
    cases hbind : Closure.bind c.params args .empty with
    | error f =>
      left
      show { s with calls := calls.pop } = s
      rw [CallStack.pop_push hpush]
    | ok bindings => exact .inr ⟨calls, bindings, hpush, rfl, rfl⟩
  · exact .inl hfinal

theorem Plain.steps (h : Plain x) (s : State) : s.heap.Steps (x.final s).heap := by
  induction h generalizing s with
  | value | fault | fromHeap | printLine => exact .refl
  | modifyArray id f => exact .single (.modifyArray id f)
  | @bind α β x f _ _ ihx ihf =>
    rcases final_bind x f s with ⟨a, -, hfinal⟩ | hfinal
    · rw [hfinal]
      exact (ihx s).trans (ihf a _)
    · rw [hfinal]
      exact ihx s

/-- A new scope for a call is made inside the scope that its function was declared in. -/
theorem steps_entered {s : State} (hs : s.heap.WellScoped) (h0 : 0 < s.heap.scopes.size)
    (id : FunctionId) (calls : CallStack) (bindings : Table Binding) :
    s.heap.Steps (s.entered (s.heap.closure id) calls bindings).heap := by
  refine .single (.newScope fun parent hparent => ?_)
  cases hparent
  exact hs.closure_scope_lt h0 id

/-- An evaluation in a scope that is there changes the heap by steps, whichever way it ends. -/
theorem Scoped.steps (h : Scoped scope x) {s : State} (hs : s.heap.WellScoped)
    (hscope : scope < s.heap.scopes.size) : s.heap.Steps (x.final s).heap := by
  -- No step takes the scope away in which the next one works.
  induction h generalizing s with
  | plain hx => exact hx.steps s
  | outOfFuel => exact .refl
  | readVariable name => rw [final_readVariable]
  | @declare scope name b =>
    rcases final_onScope name (·.declare scope name b) s with ⟨heap, hd, hfinal⟩ | hfinal
    · rw [hfinal]
      exact .single (.declare hd)
    · rw [hfinal]
  | @assign scope name v =>
    rcases final_onScope name (·.assign scope name v) s with ⟨heap, ha, hfinal⟩ | hfinal
    · rw [hfinal]
      exact .single (.assign ha)
    · rw [hfinal]
  | newObject properties => exact .single (.newObject properties)
  | newArray elements => exact .single (.newArray elements)
  | newClosure name params body => exact .single (.newClosure hscope)
  | @overwrite scope id key x _ ih =>
    rcases final_overwrite id key x s with hfinal | ⟨hkey, hfinal | ⟨v, hfinal⟩⟩
    · rw [hfinal]
    · rw [hfinal]
      exact ih hs hscope
    · rw [hfinal]
      have hsteps := ih hs hscope
      exact hsteps.tail (.setProperty v (hsteps.contains hkey))
  | @bind α β scope x f _ _ ihx ihf =>
    have hsteps := ihx hs hscope
    rcases final_bind x f s with ⟨a, -, hfinal⟩ | hfinal
    · rw [hfinal]
      exact hsteps.trans (ihf a (hs.steps hsteps) (Nat.lt_of_lt_of_le hscope hsteps.scopes_le))
    · rw [hfinal]
      exact hsteps
  | @apply α scope id args body _ ih =>
    rcases final_apply id args body s with hfinal | ⟨calls, bindings, -, -, hfinal⟩
    · rw [hfinal]
    · rw [hfinal]
      have hentered := steps_entered hs (Nat.zero_lt_of_lt hscope) id calls bindings
      refine hentered.trans (ih _ _ (hs.steps hentered) ?_)
      rw [State.entered, Heap.size_scopes_newScope]
      exact Nat.lt_succ_self _

/-! ## The states on the way -/

/-- The states that a run in a scope passes through, given how it is composed of what is done in
that scope. -/
inductive Visits : {α : Type} → ScopeId → Run α → State → State → Prop
  | start {α : Type} {scope : ScopeId} {x : Run α} (s : State) : Visits scope x s s
  | finish {α : Type} {scope : ScopeId} {x : Run α} (hx : Scoped scope x) (s : State) :
      Visits scope x s (x.final s)
  | first {α β : Type} {scope : ScopeId} {x : Run α} {f : α → Run β} {s t : State} :
      Visits scope x s t → Visits scope (x >>= f) s t
  | second {α β : Type} {scope : ScopeId} {x : Run α} {f : α → Run β} {s t u : State} {a : α}
      (hx : Scoped scope x) :
      x s = .ok a u → Visits scope (f a) u t → Visits scope (x >>= f) s t
  /-- The body of a call is run in the new scope. -/
  | inside {α : Type} {scope : ScopeId} {id : FunctionId} {args : List Value}
      {body : Closure → ScopeId → Run α} {s t : State} {calls : CallStack}
      {bindings : Table Binding} :
      s.calls.push (s.heap.closure id).name = .ok calls →
      Closure.bind (s.heap.closure id).params args .empty = .ok bindings →
      Visits s.heap.scopes.size (body (s.heap.closure id) s.heap.scopes.size)
        (s.entered (s.heap.closure id) calls bindings) t →
      Visits scope (apply id args body) s t

/-- Up to every state that it passes through, a run has changed the heap by steps. -/
theorem Visits.steps {s t : State} (h : Visits scope x s t) (hs : s.heap.WellScoped)
    (hscope : scope < s.heap.scopes.size) : s.heap.Steps t.heap := by
  induction h with
  | start s => exact .refl
  | finish hx s => exact hx.steps hs hscope
  | first _ ih => exact ih hs hscope
  | second hx hu _ ih =>
    have hsteps := hx.steps hs hscope
    rw [final_of_ok hu] at hsteps
    exact hsteps.trans (ih (hs.steps hsteps) (Nat.lt_of_lt_of_le hscope hsteps.scopes_le))
  | @inside α scope id args body s t calls bindings _ _ _ ih =>
    have hentered := steps_entered hs (Nat.zero_lt_of_lt hscope) id calls bindings
    refine hentered.trans (ih (hs.steps hentered) ?_)
    rw [State.entered, Heap.size_scopes_newScope]
    exact Nat.lt_succ_self _

end Run

end DialectScript
