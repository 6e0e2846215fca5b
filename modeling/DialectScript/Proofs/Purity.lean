import DialectScript.Proofs.Moved
import DialectScript.Run.Fuel
import Mathlib.Order.Filter.AtTopBot.Basic

/-!
# Expressions without effect

**Theorem (`Expr.Pure.repeats`).** An expression without calls and assignments ends, with enough
fuel for its syntax, in every state and in every scope. What there was is as it was, whichever way
it ends: there are more objects and arrays, and nothing else is new. Evaluated once more, it ends in
the same way: with the same fault, or with a value of the same type and the same text, and with the
same number if it is one. For the second part no place may be held that was never given out, as is
so in every heap that a session comes to (`Heap.Closed`).

The two evaluations make different objects and arrays. They go side by side (`Run.Follows`): the
second one starts from a heap to which the first one's is carried by a shift (`Shift.Carries`), and
after every step of both the heaps are carried still. Whatever depends on a value only through its
type, through the number or truth value that it is, or through what stands at its place, does not
see the shift.
-/

namespace DialectScript

/-- No call and no assignment stands in the expression. -/
inductive Expr.Pure : Expr → Prop
  | identifier (name : String) : Pure (.identifier name)
  | number (x : Float) : Pure (.number x)
  | string (text : String) : Pure (.string text)
  | binary (operator : Operator) {left right : Expr} :
      Pure left → Pure right → Pure (.binary operator left right)
  | object {properties : List (Property Expr)} :
      (∀ key value, .pair key value ∈ properties → Pure value) → Pure (.object properties)
  | array {elements : List Expr} : (∀ e ∈ elements, Pure e) → Pure (.array elements)
  | member {object property : Expr} (access : Access) :
      Pure object → Pure property → Pure (.member object property access)

/-! ## Making objects and arrays -/

namespace Heap.Makes

variable {h h' h'' : Heap}

theorem refl (h : Heap) : h.Makes h := ⟨#[], #[], by simp⟩

theorem trans (hm : h.Makes h') (hm' : h'.Makes h'') : h.Makes h'' := by
  obtain ⟨objects, arrays, rfl⟩ := hm
  obtain ⟨objects', arrays', rfl⟩ := hm'
  exact ⟨objects ++ objects', arrays ++ arrays', by simp only [Array.append_assoc]⟩

theorem newObject (h : Heap) (properties : Table Value) : h.Makes (h.newObject properties).2 :=
  ⟨#[properties], #[], by simp [Heap.newObject]⟩

theorem newArray (h : Heap) (elements : Array Value) : h.Makes (h.newArray elements).2 :=
  ⟨#[], #[elements], by simp [Heap.newArray]⟩

end Heap.Makes

/-- The second state is the first one with more objects and arrays. -/
structure State.Makes (s t : State) : Prop where
  heap : s.heap.Makes t.heap
  output : t.output = s.output
  calls : t.calls = s.calls

namespace State.Makes

variable {s t u : State}

theorem refl (s : State) : s.Makes s := ⟨.refl s.heap, rfl, rfl⟩

theorem trans (hm : s.Makes t) (hm' : t.Makes u) : s.Makes u :=
  ⟨hm.heap.trans hm'.heap, hm'.output.trans hm.output, hm'.calls.trans hm.calls⟩

end State.Makes

/-! ## What does not see a shift -/

theorem Shift.slot_value (ρ : Shift) (index : Value) (length : Nat) :
    (ρ.value index).slot length = index.slot length := by
  cases index <;> rfl

theorem Operator.apply_value (operator : Operator) (ρ : Shift) (left right : Value) :
    operator.apply (ρ.value left) (ρ.value right) = operator.apply left right := by
  have hresult : operator.result? (ρ.value left) (ρ.value right) = operator.result? left right := by
    cases operator <;> simp only [result?, Shift.truth?_value] <;>
      cases left <;> cases right <;> rfl
  simp only [apply, hresult, Shift.type_value]

namespace Run

/-! ## Two runs side by side -/

section

variable {α β : Type} {ρ : Shift} {g : α → α} {s s' : State}

/-- Two runs end in the same way, the second with the moved value in a shifted heap, and neither has
made anything but objects and arrays. -/
inductive EndsMoved (ρ : Shift) (g : α → α) (s s' : State) :
    EStateM.Result Stop State α → EStateM.Result Stop State α → Prop
  | value {a a' : α} {t t' : State} :
      a' = g a → s.Makes t → s'.Makes t' → ρ.Carries t.heap t'.heap →
      EndsMoved ρ g s s' (.ok a t) (.ok a' t')
  | fault (f : Fault) {t t' : State} :
      s.Makes t → s'.Makes t' → EndsMoved ρ g s s' (.error (.fault f) t) (.error (.fault f) t')

theorem EndsMoved.of_makes {t t' : State} {first second : EStateM.Result Stop State α}
    (hm : s.Makes t) (hm' : s'.Makes t') (h : EndsMoved ρ g t t' first second) :
    EndsMoved ρ g s s' first second := by
  cases h with
  | value ha hn hn' hc => exact .value ha (hm.trans hn) (hm'.trans hn') hc
  | fault f hn hn' => exact .fault f (hm.trans hn) (hm'.trans hn')

/-- From a heap and the shifted one, the two runs end in the same way. -/
def Follows (ρ : Shift) (g : α → α) (x x' : Run α) : Prop :=
  ∀ s s', ρ.Carries s.heap s'.heap → EndsMoved ρ g s s' (x s) (x' s')

namespace Follows

theorem fromHeap {f f' : Heap → α} (hf : ∀ h h', ρ.Carries h h' → f' h' = g (f h)) :
    Follows ρ g (Run.fromHeap f) (Run.fromHeap f') :=
  fun s s' hc => .value (hf s.heap s'.heap hc) (.refl s) (.refl s') hc

theorem value (a : α) : Follows ρ g (pure a) (pure (g a)) := .fromHeap fun _ _ _ => rfl

theorem fault (cause : FaultCause) : Follows ρ g (Run.fault cause) (Run.fault cause) :=
  fun s s' _ => .fault (.ofCause cause) (.refl s) (.refl s')

/-- A result that is not moved. -/
theorem ofExcept {result : Except Fault α} (hg : ∀ a, result = .ok a → g a = a) :
    Follows ρ g (Run.ofExcept result) (Run.ofExcept result) := by
  intro s s' hc
  cases result with
  | ok a => exact .value (hg a rfl).symm (.refl s) (.refl s') hc
  | error f => exact .fault f (.refl s) (.refl s')

theorem propertyKey (property : Expr) :
    Follows ρ (fun key => key) property.propertyKey property.propertyKey := by
  rw [property.propertyKey_standard]
  exact .ofExcept fun _ _ => rfl

theorem make {f f' : Heap → Nat × Heap} {g : Nat → Nat}
    (hf : ∀ h h', ρ.Carries h h' → (f' h').1 = g (f h).1 ∧ ρ.Carries (f h).2 (f' h').2)
    (hm : ∀ h : Heap, h.Makes (f h).2) (hm' : ∀ h : Heap, h.Makes (f' h).2) :
    Follows ρ g (Run.make f) (Run.make f') := by
  intro s s' hc
  obtain ⟨hid, hc'⟩ := hf s.heap s'.heap hc
  exact .value hid ⟨hm s.heap, rfl, rfl⟩ ⟨hm' s'.heap, rfl, rfl⟩ hc'

theorem newObject (properties : Table Value) :
    Follows ρ ρ.objects.apply (Run.make (·.newObject properties))
      (Run.make (·.newObject (properties.map ρ.value))) :=
  .make (fun _ _ hc => hc.newObject properties) (fun h => .newObject h _) fun h => .newObject h _

theorem newArray (elements : Array Value) :
    Follows ρ ρ.arrays.apply (Run.make (·.newArray elements))
      (Run.make (·.newArray (elements.map ρ.value))) :=
  .make (fun _ _ hc => hc.newArray elements) (fun h => .newArray h _) fun h => .newArray h _

theorem bind {x x' : Run α} {f f' : α → Run β} {k : β → β} (hx : Follows ρ g x x')
    (hf : ∀ a, Follows ρ k (f a) (f' (g a))) : Follows ρ k (x >>= f) (x' >>= f') := by
  intro s s' hc
  have hfirst := hx s s' hc
  simp only [Bind.bind, EStateM.bind]
  generalize x s = first, x' s' = second at hfirst ⊢
  cases hfirst with
  | fault f hm hm' => exact .fault f hm hm'
  | @value a a' t t' ha hm hm' hc' =>
    subst ha
    exact .of_makes hm hm' (hf a t t' hc')

theorem readVariable (scope : ScopeId) (name : String) :
    Follows ρ ρ.value (Run.readVariable scope name) (Run.readVariable scope name) := by
  intro s s' hc
  obtain ⟨hread, hfixed⟩ := hc.read scope name
  unfold Run.readVariable
  rw [hread]
  cases hv : s.heap.read scope name with
  | ok v => exact .value (hfixed v hv).symm (.refl s) (.refl s') hc
  | error e => exact .fault _ (.refl s) (.refl s')

theorem readProperty (id : ObjectId) (key : String) :
    Follows ρ ρ.value (Run.readProperty id key) (Run.readProperty (ρ.objects.apply id) key) := by
  refine .bind (g := Option.map ρ.value) (.fromHeap fun h h' hc => ?_) fun entry => ?_
  · rw [hc.object, Table.get?_map]
  · cases entry with
    | none => exact .fault _
    | some v => exact .value v

theorem slotOf (id : ArrayId) (index : Value) :
    Follows ρ (fun i => i) (Run.slotOf id index)
      (Run.slotOf (ρ.arrays.apply id) (ρ.value index)) := by
  refine .bind (g := fun length => length) (.fromHeap fun h h' hc => ?_) fun length => ?_
  · rw [hc.array, Array.size_map]
  · rw [ρ.slot_value]
    exact .ofExcept fun _ _ => rfl

theorem readElement (id : ArrayId) (index : Value) :
    Follows ρ ρ.value (Run.readElement id index)
      (Run.readElement (ρ.arrays.apply id) (ρ.value index)) := by
  refine .bind (slotOf id index) fun i => .fromHeap fun h h' hc => ?_
  rw [hc.array]
  by_cases hi : i < (h.array id).size <;> simp [Array.getD, hi, Shift.value]

end Follows

end

end Run

/-! ## Evaluations side by side -/

theorem eventually_succ {P : Nat → Prop} (h : ∀ᶠ n in Filter.atTop, P (n + 1)) :
    ∀ᶠ n in Filter.atTop, P n := by
  rw [← Filter.map_add_atTop_eq_nat 1]
  exact h

open Run

/-- With this fuel, the expression is evaluated in the same way in a heap and in any shifted one. -/
def Expr.Steady (n : Nat) (e : Expr) : Prop :=
  ∀ (ρ : Shift) scope, Follows ρ ρ.value (e.eval n scope) (e.eval n scope)

/-- Entries of steady expressions are put into a table and into the moved one. -/
theorem follows_properties {ps : List (Property Expr)}
    (hps : ∀ key value, .pair key value ∈ ps → ∀ᶠ n in Filter.atTop, value.Steady n) :
    ∀ᶠ n in Filter.atTop, ∀ (ρ : Shift) scope entries,
      Follows ρ (·.map ρ.value) (evalProperties n scope ps entries)
        (evalProperties n scope ps (entries.map ρ.value)) := by
  induction ps with
  | nil =>
    refine eventually_succ (.of_forall fun n ρ scope entries => ?_)
    rw [evalProperties, evalProperties]
    exact .value entries
  | cons p rest ih =>
    have hrest := ih fun key value hmem => hps key value (.tail p hmem)
    cases p with
    | shorthand key =>
      refine eventually_succ ?_
      filter_upwards [hrest] with n hrest ρ scope entries
      rw [evalProperties, evalProperties]
      refine .bind (.readVariable scope key) fun v => ?_
      rw [← Table.map_insert]
      exact hrest ρ scope _
    | pair key value =>
      refine eventually_succ ?_
      filter_upwards [hps key value (.head rest), hrest] with n hvalue hrest ρ scope entries
      rw [evalProperties, evalProperties]
      refine .bind (hvalue ρ scope) fun v => ?_
      rw [← Table.map_insert]
      exact hrest ρ scope _

theorem follows_list {es : List Expr} (hes : ∀ e ∈ es, ∀ᶠ n in Filter.atTop, e.Steady n) :
    ∀ᶠ n in Filter.atTop, ∀ (ρ : Shift) scope,
      Follows ρ (·.map ρ.value) (evalList n scope es) (evalList n scope es) := by
  induction es with
  | nil =>
    refine eventually_succ (.of_forall fun n ρ scope => ?_)
    rw [evalList]
    exact .value []
  | cons e rest ih =>
    have hrest := ih fun e he => hes e (.tail _ he)
    refine eventually_succ ?_
    filter_upwards [hes e (.head rest), hrest] with n he hrest ρ scope
    rw [evalList]
    exact .bind (he ρ scope) fun v => .bind (hrest ρ scope) fun vs => .value (v :: vs)

/-- An expression without calls and assignments is steady, with enough fuel for its syntax. -/
theorem Expr.Pure.steady {e : Expr} (he : e.Pure) : ∀ᶠ n in Filter.atTop, e.Steady n := by
  -- Every part has enough fuel from some bound on, so finitely many parts have it together.
  induction he with
  | identifier name =>
    refine eventually_succ (.of_forall fun n ρ scope => ?_)
    rw [Expr.eval]
    exact .readVariable scope name
  | number x =>
    refine eventually_succ (.of_forall fun n ρ scope => ?_)
    rw [Expr.eval]
    exact .value (Value.number x)
  | string text =>
    refine eventually_succ (.of_forall fun n ρ scope => ?_)
    rw [Expr.eval]
    exact .value (Value.string text)
  | binary operator _ _ ihl ihr =>
    refine eventually_succ ?_
    filter_upwards [ihl, ihr] with n hl hr ρ scope
    rw [Expr.eval]
    refine .bind (hl ρ scope) fun l => .bind (hr ρ scope) fun r => ?_
    rw [Operator.apply_value]
    exact .ofExcept fun v hv => Shift.value_of_place?_eq_none (Operator.place?_of_apply hv)
  | object _ ih =>
    refine eventually_succ ?_
    filter_upwards [follows_properties ih] with n hps ρ scope
    rw [Expr.eval]
    refine .bind (hps ρ scope .empty) fun entries => ?_
    exact .bind (.newObject entries) fun id => .value (Value.object id)
  | array _ ih =>
    refine eventually_succ ?_
    filter_upwards [follows_list ih] with n hes ρ scope
    rw [Expr.eval]
    refine .bind (hes ρ scope) fun vs => ?_
    rw [← List.map_toArray]
    exact .bind (.newArray vs.toArray) fun id => .value (Value.array id)
  | member access _ _ iho ihp =>
    refine eventually_succ ?_
    filter_upwards [iho, ihp] with n ho hp ρ scope
    rw [Expr.eval]
    refine .bind (ho ρ scope) fun container => ?_
    cases container with
    | object id =>
      cases access with
      | dot =>
        exact .bind (.propertyKey _) fun key => .readProperty id key
      | bracket => exact .fault _
    | array id =>
      cases access with
      | dot => exact .fault _
      | bracket => exact .bind (hp ρ scope) fun index => .readElement id index
    | null | boolean _ | number _ | string _ | function _ | builtin _ => exact .fault _

/-! ## The theorem -/

namespace Run

variable {α : Type} {ρ : Shift} {g : α → α} {s s' : State} {x : Run α}
  {last : EStateM.Result Stop State α}

theorem EndsMoved.ne_outOfFuel (h : EndsMoved ρ g s s' (x s) last) (t : State) :
    x s ≠ .error .outOfFuel t := by
  intro hx
  rw [hx] at h
  cases h

theorem EndsMoved.makes (h : EndsMoved ρ g s s' (x s) last) : s.Makes (x.final s) := by
  unfold final
  cases hx : x s <;> rw [hx] at h <;> cases h <;> assumption

/-- The second end is the first one again: the same fault, or a value with the same type, with the
same text, at once and in the end, and with the same number if it is one. -/
inductive EndsAgain : EStateM.Result Stop State Value → EStateM.Result Stop State Value → Prop
  | value {v v' : Value} {t t' : State} :
      v'.type = v.type → v'.number? = v.number? → t'.heap.display v' = t.heap.display v →
      t'.heap.display v = t.heap.display v → EndsAgain (.ok v t) (.ok v' t')
  | fault (f : Fault) {t t' : State} : EndsAgain (.error (.fault f) t) (.error (.fault f) t')

end Run

theorem Heap.Closed.display_makes {h h' : Heap} (hh : h.Closed) (hm : h.Makes h') {v : Value}
    (hv : h.Holds v) : h'.display v = h.display v := by
  obtain ⟨ρ, hc, hfix⟩ := hh.exists_shift hm
  have hsame := hc.display v
  rwa [hfix v hv] at hsame

namespace Expr.Pure

/-- An expression without calls and assignments ends, makes nothing but objects and arrays, and ends
in the same way when it is evaluated again. -/
theorem repeats {e : Expr} (he : e.Pure) :
    ∃ n, ∀ m ≥ n, ∀ (s : State) (scope : ScopeId),
      (∀ t, e.eval m scope s ≠ .error .outOfFuel t) ∧
      e.eval m scope s = e.eval n scope s ∧
      s.Makes ((e.eval m scope).final s) ∧
      (s.heap.Closed → scope < s.heap.scopes.size →
        EndsAgain (e.eval m scope s) (e.eval m scope ((e.eval m scope).final s))) := by
  obtain ⟨n, hn⟩ := Filter.eventually_atTop.1 he.steady
  refine ⟨n, fun m hm s scope => ?_⟩
  -- With the shift that moves nothing, an evaluation is compared to itself.
  have hself k (hk : k ≥ n) := hn k hk ⟨⟨0, 0⟩, ⟨0, 0⟩⟩ scope s s (Shift.carries_self s.heap)
  have hmakes := (hself m hm).makes
  refine ⟨(hself m hm).ne_outOfFuel, ?_, hmakes, fun hs hscope => ?_⟩
  · rcases eval_below hm scope e s with heq | ⟨t, ht⟩
    · exact heq.symm
    · exact absurd ht ((hself n (Nat.le_refl n)).ne_outOfFuel t)
  · have hx : EvaluationFrom m (· = .scope scope) (e.eval m scope) := .expression scope e
    obtain ⟨hclosed, hholds⟩ := hx.closed hs fun p hp => hp ▸ hscope
    -- The heap behind the first evaluation is the old one and more, and a shift carries it over.
    obtain ⟨ρ, hc, -⟩ := hs.exists_shift hmakes.heap
    have hagain := hn m hm ρ scope s _ hc
    generalize hfirst : e.eval m scope s = first at hagain ⊢
    generalize e.eval m scope ((e.eval m scope).final s) = second at hagain ⊢
    cases hagain with
    | fault f _ _ => exact .fault f
    | @value v v' t t' hv' _ hm' hc' =>
      subst hv'
      rw [Run.final_of_ok hfirst] at hclosed hm'
      have hlater := hclosed.display_makes hm'.heap (hholds v t hfirst)
      exact .value (ρ.type_value v) (ρ.number?_value v) (hc'.display v) hlater

/-- A literal around an array that contains itself: each evaluation makes another object and another
array, with the same text. -/
theorem repeats_cyclic :
    let xs : Expr := .identifier "xs"
    let e : Expr := .array [xs, .object [.pair "k" xs]]
    let heap : Heap :=
      ⟨#[⟨.insert .empty "xs" ⟨.array 0, .constant⟩, none⟩], #[], #[#[.array 0]], #[]⟩
    let s : State := ⟨heap, default, .empty none⟩
    ∃ m t t', e.eval m 0 s = .ok (.array 1) t ∧ e.eval m 0 t = .ok (.array 2) t' ∧
      s.Makes t ∧ t'.heap.display (.array 2) = t.heap.display (.array 1) := by
  intro xs e heap s
  have he : e.Pure := by
    refine .array fun e' he' => ?_
    simp only [List.mem_cons, List.not_mem_nil, or_false] at he'
    rcases he' with rfl | rfl
    · exact .identifier "xs"
    · refine .object fun key value hmem => ?_
      cases List.mem_singleton.1 hmem
      exact .identifier "xs"
  have hs : s.heap.Closed := by
    intro p q hp hq
    cases hq with
    | @parent id _ hparent =>
      cases Nat.lt_one_iff.1 hp
      cases hparent
    | @binding id name b _ hb hq =>
      cases Nat.lt_one_iff.1 hp
      rw [show (s.heap.scope 0).bindings = .insert .empty "xs" ⟨.array 0, .constant⟩ from rfl,
        Table.get?_insert] at hb
      split at hb <;> cases hb
      cases hq
      exact Nat.one_pos
    | property => exact absurd hp (Nat.not_lt_zero _)
    | @element id v _ hv hq =>
      cases Nat.lt_one_iff.1 hp
      cases List.mem_singleton.1 (Array.mem_toList_iff.2 hv)
      cases hq
      exact Nat.one_pos
    | captured => exact absurd hp (Nat.not_lt_zero _)
  obtain ⟨n, hn⟩ := he.repeats
  -- How much fuel is enough is not said, so it is given on top of what the runs here take.
  have henough {v : Value} {u u' : State} (h : e.eval 9 0 u = .ok v u') :
      e.eval (n + 9) 0 u = .ok v u' := by
    rcases eval_below (Nat.le_add_left 9 n) 0 e u with heq | ⟨t, ht⟩
    · exact heq.symm.trans h
    · rw [h] at ht
      cases ht
  obtain ⟨t, ht⟩ : ∃ t, e.eval 9 0 s = .ok (.array 1) t :=
    ⟨(e.eval 9 0).final s, by subst s heap e xs; cbv⟩
  obtain ⟨t', ht'⟩ : ∃ t', e.eval 9 0 t = .ok (.array 2) t' := by
    rw [← Run.final_of_ok ht]
    exact ⟨(e.eval 9 0).final ((e.eval 9 0).final s), by subst s heap e xs; cbv⟩
  obtain ⟨-, -, hmakes, hagain⟩ := hn (n + 9) (Nat.le_add_right n 9) s 0
  have hagain := hagain hs Nat.one_pos
  rw [Run.final_of_ok (henough ht)] at hmakes hagain
  rw [henough ht, henough ht'] at hagain
  cases hagain with
  | value _ _ htext _ => exact ⟨n + 9, t, t', henough ht, henough ht', hmakes, htext⟩

end Expr.Pure

end DialectScript
