import DialectScript.Proofs.Scopes

/-!
# Objects keep their shape

**Theorem (`Heap.Reachable.objects_keep_shape`).** Throughout an evaluation and whichever way it
ends, every object that was there has the properties that it had, in the same order, and none of
them twice. So an assignment to a property that is found before the new value is evaluated finds it
again afterwards, whatever that evaluation does to the object: it ends as the evaluation of the
value does, with the value stored.

The first part is a fact about the single steps of an evaluation (`Heap.Step.object_keys`): no other
property is ever overwritten than one that the object has. The second part is the first one, for the
evaluation of the new value.
-/

namespace DialectScript

namespace Heap

/-- Every object of the first heap is in the second, with the same properties in the same order, and
no property occurs twice. -/
structure KeepsShapes (h h' : Heap) : Prop where
  size : h.objects.size ≤ h'.objects.size
  keys : ∀ id < h.objects.size, (h'.object id).keys = (h.object id).keys
  nodup : ∀ id, (h'.object id).keys.Nodup

theorem Steps.keepsShapes {h h' : Heap} (hs : h.Steps h') : h.KeepsShapes h' where
  size := hs.object_keys.1
  keys := hs.object_keys.2
  nodup id := (h'.object id).nodup

end Heap

namespace Run

variable {scope id : Nat} {x : Run Value} {s : State} {key : String}

/-- A property that is there when a run begins is there when it ends. -/
theorem Scoped.contains_final (h : Scoped scope x) (hs : s.heap.WellScoped)
    (hscope : scope < s.heap.scopes.size) (hkey : (s.heap.object id).contains key = true) :
    ((x.final s).heap.object id).contains key = true :=
  (h.steps hs hscope).contains hkey

/-- A property that is there can be overwritten, whatever is evaluated in between. -/
theorem overwrite_eq_of_contains (h : Scoped scope x) (hs : s.heap.WellScoped)
    (hscope : scope < s.heap.scopes.size) (hkey : (s.heap.object id).contains key = true) :
    overwrite id key x s = match x s with
      | .ok v t => .ok v { t with heap := t.heap.modifyObject id (·.insert key v) }
      | .error e t => .error e t := by
  have hlast := h.contains_final hs hscope hkey
  rw [overwrite_eq, if_pos hkey]
  cases hx : x s with
  | error e t => simp only [bind, EStateM.bind, hx]
  | ok v t =>
    rw [final_of_ok hx] at hlast
    simp only [bind, EStateM.bind, hx, store_eq, if_pos hlast]

end Run

/-- An assignment to a property overwrites the one that the object has. -/
theorem Expr.evalAssign_eq_overwrite {object property : Expr} {key : String} {fuel : Nat}
    {scope : ScopeId} {id : ObjectId} {s t : State}
    (hobject : object.eval fuel scope s = .ok (.object id) t)
    (hproperty : property.propertyName = .ok key) (value : Expr) :
    (Expr.member object property .dot).evalAssign (fuel + 1) scope value s =
      Run.overwrite id key (value.eval fuel scope) t := by
  rw [Expr.evalAssign]
  simp only [bind, EStateM.bind, hobject, Expr.propertyKey_standard, hproperty]
  rfl

namespace Heap

/-- Throughout an evaluation, objects keep their properties, and an assignment finds again the
property that it has found. -/
theorem Reachable.objects_keep_shape {s : State} (hs : s.heap.Reachable) (fuel : Nat)
    {scope : ScopeId} (hscope : scope < s.heap.scopes.size) :
    (∀ x, EvaluationIn fuel scope x →
      s.heap.KeepsShapes (x.final s).heap ∧
        ∀ t, Run.Visits scope x s t → s.heap.KeepsShapes t.heap) ∧
    ∀ object property key id t, object.eval fuel scope s = .ok (.object id) t →
      property.propertyName = .ok key → (t.heap.object id).contains key = true →
      ∀ value,
        (∀ v u, value.eval fuel scope t = .ok v u →
          ∃ old, Run.readProperty id key u = .ok old u) ∧
        (Expr.member object property .dot).evalAssign (fuel + 1) scope value s =
          match value.eval fuel scope t with
          | .ok v u => .ok v { u with heap := u.heap.modifyObject id (·.insert key v) }
          | .error e u => .error e u := by
  have hwell := hs.wellScoped
  refine ⟨fun x hx => ⟨?_, fun t ht => ?_⟩, fun object property key id t hobject hproperty hkey
    value => ?_⟩
  · exact (hx.scoped.steps hwell hscope).keepsShapes
  · exact (ht.steps hwell hscope).keepsShapes
  · have hfirst : Run.Scoped scope (object.eval fuel scope) :=
      (EvaluationIn.expression object).scoped
    have hsteps := hfirst.steps hwell hscope
    rw [Run.final_of_ok hobject] at hsteps
    have hwell := hwell.steps hsteps
    have hscope := Nat.lt_of_lt_of_le hscope hsteps.scopes_le
    have hvalue : Run.Scoped scope (value.eval fuel scope) := (EvaluationIn.expression value).scoped
    refine ⟨fun v u hu => ?_, ?_⟩
    · have hthere := hvalue.contains_final hwell hscope hkey
      rw [Run.final_of_ok hu] at hthere
      obtain ⟨old, hold⟩ := Option.isSome_iff_exists.1 hthere
      exact ⟨old, by rw [Run.readProperty_eq, hold]⟩
    · rw [Expr.evalAssign_eq_overwrite hobject hproperty,
        Run.overwrite_eq_of_contains hvalue hwell hscope hkey]

/-- The value that is stored under one property of an object is itself an assignment to another one
of the same object. -/
theorem Reachable.objects_keep_shape_nested :
    let s : State := ⟨Heap.empty.global.2, default, .empty none⟩
    let operations : Expr := .identifier "Array"
    let value : Expr := .assign (.member operations (.identifier "pop") .dot) (.string "a")
    let x := (Expr.assign (.member operations (.identifier "push") .dot) value).eval 5 0
    (∃ u, value.eval 3 0 s = .ok (.string "a") u ∧
      (Expr.member operations (.identifier "push") .dot).evalAssign 4 0 value s =
        .ok (.string "a") { u with
          heap := u.heap.modifyObject 0 (·.insert "push" (.string "a")) }) ∧
    ((x.final s).heap.object 0).keys = ["length", "push", "pop", "shift", "unshift"] := by
  intro s operations value x
  have hs : s.heap.Reachable := (global_steps .empty).1
  have h0 : 0 < s.heap.scopes.size := (global_steps .empty).2
  have hkeys : (s.heap.object 0).keys = ["length", "push", "pop", "shift", "unshift"] := by
    subst s
    cbv
  have hkey : (s.heap.object 0).contains "push" = true := by
    rw [Table.contains_iff_mem_keys, hkeys]
    decide
  have hobject : operations.eval 3 0 s = .ok (.object 0) s := by
    subst s operations
    cbv
  have hvalue : value.eval 3 0 s = .ok (.string "a") ((value.eval 3 0).final s) := by
    subst s value operations
    cbv
  obtain ⟨-, hassign⟩ := hs.objects_keep_shape 3 h0
  have hstored := (hassign operations (.identifier "push") "push" 0 s hobject rfl hkey value).2
  obtain ⟨hshapes, -⟩ := hs.objects_keep_shape 5 h0
  rw [hvalue] at hstored
  refine ⟨⟨_, hvalue, hstored⟩, ?_⟩
  have hpresent : 0 < s.heap.objects.size := by
    subst s
    decide
  rw [(hshapes x (.expression _)).1.keys 0 hpresent, hkeys]

end Heap

end DialectScript
