import DialectScript.Proofs.Calls
import Mathlib.Logic.Relation

/-!
# What can be reached

A scope leads to the scope around it and to what its bindings hold, an object and an array to what
they hold, and a function to the scope it was declared in.

* `Heap.Reaches` — what a place leads to, over any number of other places.
* `Region` — a heap and the places in it that an evaluation is given. A place is inside the region
  (`Region.Inside`) if the given ones reach it, or if it was made after that heap.
* `Region.Confined` — **what is inside leads only inside, and what was outside is as it was**. It
  holds at first, and a write keeps it that goes inside and writes what is inside
  (`Region.Confined.writes`).

Inside is said of the first heap and not of the current one: an evaluation may cut the way to a
place that it has in hand.
-/

namespace DialectScript

/-- A place in the heap, of any kind. -/
inductive Place where
  | scope (id : ScopeId)
  | object (id : ObjectId)
  | array (id : ArrayId)
  | function (id : FunctionId)
deriving DecidableEq

/-- The place that a value holds, if it holds one. -/
def Value.place? : Value → Option Place
  | .object id => some (.object id)
  | .array id => some (.array id)
  | .function id => some (.function id)
  | _ => none

namespace Heap

variable {h h' h'' : Heap} {p q : Place}

/-! ## Places -/

/-- The place has been given out. -/
def Has (h : Heap) : Place → Prop
  | .scope id => id < h.scopes.size
  | .object id => id < h.objects.size
  | .array id => id < h.arrays.size
  | .function id => id < h.closures.size

/-- The two heaps have the same at a place. -/
def Agrees (h h' : Heap) : Place → Prop
  | .scope id => h'.scope id = h.scope id
  | .object id => h'.object id = h.object id
  | .array id => h'.array id = h.array id
  | .function id => h'.closure id = h.closure id

/-- What stands at the first place holds the second one. -/
inductive Refers (h : Heap) : Place → Place → Prop
  | parent {id parent : ScopeId} :
      (h.scope id).parent = some parent → Refers h (.scope id) (.scope parent)
  | binding {id : ScopeId} {name : String} {b : Binding} {p : Place} :
      (h.scope id).bindings.get? name = some b → b.value.place? = some p → Refers h (.scope id) p
  | property {id : ObjectId} {key : String} {v : Value} {p : Place} :
      (h.object id).get? key = some v → v.place? = some p → Refers h (.object id) p
  | element {id : ArrayId} {v : Value} {p : Place} :
      v ∈ h.array id → v.place? = some p → Refers h (.array id) p
  | captured {id : FunctionId} : Refers h (.function id) (.scope (h.closure id).scope)

/-- The first place leads to the second one, over any number of others. -/
abbrev Reaches (h : Heap) : Place → Place → Prop := Relation.ReflTransGen h.Refers

/-- What a place holds is seen at the place. -/
theorem Refers.of_agrees (hp : h.Agrees h' p) (hr : h'.Refers p q) : h.Refers p q := by
  cases hr with
  | parent hparent => exact .parent (hp ▸ hparent)
  | binding hb hq => exact .binding (hp ▸ hb) hq
  | property hv hq => exact .property (hp ▸ hv) hq
  | element hv hq => exact .element (hp ▸ hv) hq
  | @captured id =>
    have hc : h'.closure id = h.closure id := hp
    rw [hc]
    exact .captured

/-! ## Writes -/

/-- No place of the first heap is missing in the second. -/
def Keeps (h h' : Heap) : Prop := ∀ p, h.Has p → h'.Has p

namespace Keeps

theorem refl (h : Heap) : h.Keeps h := fun _ hp => hp

theorem trans (hk : h.Keeps h') (hk' : h'.Keeps h'') : h.Keeps h'' :=
  fun p hp => hk' p (hk p hp)

end Keeps

/-- The heaps differ at one place at most, which may be new in the second. -/
structure Writes (h : Heap) (p : Place) (h' : Heap) : Prop where
  keeps : h.Keeps h'
  only : ∀ q, q ≠ p → h'.Has q → h.Has q
  agrees : ∀ q, q ≠ p → h.Agrees h' q

namespace Writes

theorem newScope (h : Heap) (s : Scope) : h.Writes (.scope h.scopes.size) (h.newScope s).2 where
  keeps p hp := by cases p <;> grind [Has, Heap.newScope]
  only q hq hq' := by cases q <;> grind [Has, Heap.newScope]
  agrees q hq := by
    cases q with
    | scope id => exact (scope_newScope h s id).trans (if_neg fun hid => hq (by rw [hid]))
    | object _ | array _ | function _ => rfl

theorem newObject (h : Heap) (properties : Table Value) :
    h.Writes (.object h.objects.size) (h.newObject properties).2 where
  keeps p hp := by cases p <;> grind [Has, Heap.newObject]
  only q hq hq' := by cases q <;> grind [Has, Heap.newObject]
  agrees q hq := by
    cases q with
    | object id =>
      exact (object_newObject h properties id).trans (if_neg fun hid => hq (by rw [hid]))
    | scope _ | array _ | function _ => rfl

theorem newArray (h : Heap) (elements : Array Value) :
    h.Writes (.array h.arrays.size) (h.newArray elements).2 where
  keeps p hp := by cases p <;> grind [Has, Heap.newArray]
  only q hq hq' := by cases q <;> grind [Has, Heap.newArray]
  agrees q hq := by
    cases q with
    | array id => exact (array_newArray h elements id).trans (if_neg fun hid => hq (by rw [hid]))
    | scope _ | object _ | function _ => rfl

theorem newClosure (h : Heap) (c : Closure) :
    h.Writes (.function h.closures.size) (h.newClosure c).2 where
  keeps p hp := by cases p <;> grind [Has, Heap.newClosure]
  only q hq hq' := by cases q <;> grind [Has, Heap.newClosure]
  agrees q hq := by
    cases q with
    | function id => exact (closure_newClosure h c id).trans (if_neg fun hid => hq (by rw [hid]))
    | scope _ | object _ | array _ => rfl

theorem modifyBindings (h : Heap) (id : ScopeId) (f : Table Binding → Table Binding) :
    h.Writes (.scope id) (h.modifyBindings id f) where
  keeps p hp := by cases p <;> grind [Has, Heap.modifyBindings]
  only q _ hq := by cases q <;> grind [Has, Heap.modifyBindings]
  agrees q hq := by
    cases q with
    | scope other =>
      exact (scope_modifyBindings h id f other).trans (if_neg fun hid => hq (by rw [hid.1]))
    | object _ | array _ | function _ => rfl

theorem modifyObject (h : Heap) (id : ObjectId) (f : Table Value → Table Value) :
    h.Writes (.object id) (h.modifyObject id f) where
  keeps p hp := by cases p <;> grind [Has, Heap.modifyObject]
  only q _ hq := by cases q <;> grind [Has, Heap.modifyObject]
  agrees q hq := by
    cases q with
    | object other =>
      exact (object_modifyObject h id f other).trans (if_neg fun hid => hq (by rw [hid.1]))
    | scope _ | array _ | function _ => rfl

theorem modifyArray (h : Heap) (id : ArrayId) (f : Array Value → Array Value) :
    h.Writes (.array id) (h.modifyArray id f) where
  keeps p hp := by cases p <;> grind [Has, Heap.modifyArray]
  only q _ hq := by cases q <;> grind [Has, Heap.modifyArray]
  agrees q hq := by
    cases q with
    | array other =>
      exact (array_modifyArray h id f other).trans (if_neg fun hid => hq (by rw [hid.1]))
    | scope _ | object _ | function _ => rfl

end Writes

end Heap

/-! ## Regions -/

/-- A heap and the places in it that an evaluation is given. -/
structure Region where
  heap : Heap
  roots : Place → Prop

namespace Region

variable {r : Region} {h h' : Heap} {p : Place} {v : Value}

/-- A place that the roots reach, or one that was made since. -/
def Inside (r : Region) (h : Heap) (p : Place) : Prop :=
  (∃ root, r.roots root ∧ r.heap.Reaches root p) ∨ h.Has p ∧ ¬ r.heap.Has p

/-- What a value holds is inside. -/
def Holds (r : Region) (h : Heap) (v : Value) : Prop := ∀ p, v.place? = some p → r.Inside h p

/-- What the entries of a table hold is inside. -/
def HoldsEntries (r : Region) (h : Heap) (t : Table Value) : Prop :=
  ∀ key v, t.get? key = some v → r.Holds h v

/-- What the bindings of a scope hold is inside. -/
def HoldsBindings (r : Region) (h : Heap) (t : Table Binding) : Prop :=
  ∀ name b, t.get? name = some b → r.Holds h b.value

/-- What is inside leads only inside, and what is outside is as it was. -/
structure Confined (r : Region) (h : Heap) : Prop where
  keeps : r.heap.Keeps h
  closed : ∀ p q, r.Inside h p → h.Refers p q → r.Inside h q
  agrees : ∀ p, r.heap.Has p → ¬ r.Inside h p → r.heap.Agrees h p

/-- At first, what is inside is what the roots reach. -/
theorem confined_heap (r : Region) : r.Confined r.heap where
  keeps := .refl r.heap
  closed p q hp hq := by
    rcases hp with ⟨root, hroot, hreach⟩ | ⟨hp, hnot⟩
    · exact .inl ⟨root, hroot, hreach.tail hq⟩
    · exact absurd hp hnot
  agrees p _ _ := by cases p <;> rfl

theorem Inside.mono (hk : h.Keeps h') (hp : r.Inside h p) : r.Inside h' p :=
  hp.imp_right fun hnew => ⟨hk p hnew.1, hnew.2⟩

theorem Holds.mono (hk : h.Keeps h') (hv : r.Holds h v) : r.Holds h' v :=
  fun p hp => (hv p hp).mono hk

theorem HoldsEntries.mono (hk : h.Keeps h') {t : Table Value} (ht : r.HoldsEntries h t) :
    r.HoldsEntries h' t :=
  fun key v hv => (ht key v hv).mono hk

/-- A value that holds a place inside may go anywhere inside. -/
theorem Inside.holds (hp : r.Inside h p) (hv : v.place? = some p) : r.Holds h v :=
  fun q hq => by
    rw [hv] at hq
    cases hq
    exact hp

/-- A value that holds no place may go anywhere. -/
theorem holds_of_place?_eq_none (hv : v.place? = none) : r.Holds h v :=
  fun p hp => by rw [hv] at hp; cases hp

theorem holdsEntries_empty : r.HoldsEntries h .empty := fun _ _ hv => nomatch hv

theorem HoldsEntries.insert {t : Table Value} (ht : r.HoldsEntries h t) (key : String)
    (hv : r.Holds h v) : r.HoldsEntries h (t.insert key v) := by
  intro name w hw
  rw [Table.get?_insert] at hw
  split at hw
  · cases hw
    exact hv
  · exact ht name w hw

theorem HoldsBindings.insert {t : Table Binding} (ht : r.HoldsBindings h t) (name : String)
    {b : Binding} (hb : r.Holds h b.value) : r.HoldsBindings h (t.insert name b) := by
  intro other b' hb'
  rw [Table.get?_insert] at hb'
  split at hb'
  · cases hb'
    exact hb
  · exact ht other b' hb'

namespace Confined

/-! ## Reading -/

/-- The scopes around a scope inside are inside. -/
theorem inside_chainFrom (hc : r.Confined h) {id : ScopeId} (hid : r.Inside h (.scope id)) (n : Nat)
    {i : ScopeId} (hi : i ∈ h.chainFrom n id) : r.Inside h (.scope i) := by
  induction n generalizing id with
  | zero => cases hi
  | succ n ih =>
    rw [Heap.chainFrom] at hi
    rcases List.mem_cons.1 hi with rfl | hi
    · exact hid
    · cases hparent : (h.scope id).parent with
      | none =>
        rw [hparent] at hi
        cases hi
      | some parent =>
        rw [hparent] at hi
        exact ih (hc.closed _ _ hid (.parent hparent)) hi

/-- A name is found inside. -/
theorem inside_holder (hc : r.Confined h) {id holder : ScopeId} {name : String}
    (hid : r.Inside h (.scope id)) (hholder : h.holder? id name = some holder) :
    r.Inside h (.scope holder) :=
  hc.inside_chainFrom hid h.scopes.size (List.mem_of_find?_eq_some hholder)

theorem holds_bindings (hc : r.Confined h) {id : ScopeId} (hid : r.Inside h (.scope id)) :
    r.HoldsBindings h (h.scope id).bindings :=
  fun _ _ hb _ hq => hc.closed _ _ hid (.binding hb hq)

theorem holds_read (hc : r.Confined h) {id : ScopeId} (hid : r.Inside h (.scope id))
    {name : String} (hv : h.read id name = .ok v) : r.Holds h v := by
  obtain ⟨holder, b, hholder, hb, rfl⟩ := Heap.read_eq_ok hv
  exact hc.holds_bindings (hc.inside_holder hid hholder) name b hb

theorem holds_properties (hc : r.Confined h) {id : ObjectId} (hid : r.Inside h (.object id)) :
    r.HoldsEntries h (h.object id) :=
  fun _ _ hv _ hq => hc.closed _ _ hid (.property hv hq)

theorem holds_element (hc : r.Confined h) {id : ArrayId} (hid : r.Inside h (.array id))
    (hv : v ∈ h.array id) : r.Holds h v :=
  fun _ hq => hc.closed _ _ hid (.element hv hq)

/-- An element that may be missing, with null in its place. -/
theorem holds_element? (hc : r.Confined h) {id : ArrayId} (hid : r.Inside h (.array id))
    {element : Option Value} (he : ∀ v, element = some v → v ∈ h.array id) :
    r.Holds h (element.getD .null) := by
  cases element with
  | none => exact holds_of_place?_eq_none rfl
  | some v => exact hc.holds_element hid (he v rfl)

/-! ## Writing -/

/-- A write that goes inside and writes what is inside keeps the rest as it was. -/
theorem writes (hc : r.Confined h) (hw : h.Writes p h') (hp : r.Inside h' p)
    (hrefs : ∀ q, h'.Refers p q → r.Inside h' q) : r.Confined h' where
  keeps := hc.keeps.trans hw.keeps
  closed p' q hp' hq := by
    by_cases heq : p' = p
    · exact hrefs q (heq ▸ hq)
    · have hold : r.Inside h p' := hp'.imp_right fun hnew => ⟨hw.only p' heq hnew.1, hnew.2⟩
      exact (hc.closed p' q hold (hq.of_agrees (hw.agrees p' heq))).mono hw.keeps
  agrees q hq hout := by
    have hne : q ≠ p := fun heq => hout (heq ▸ hp)
    have hagrees := hw.agrees q hne
    have hfirst := hc.agrees q hq fun hin => hout (hin.mono hw.keeps)
    cases q <;> exact hagrees.trans hfirst

/-- A new place that leads only inside is inside. -/
theorem makes (hc : r.Confined h) (hw : h.Writes p h') (hp : ¬ h.Has p) (hp' : h'.Has p)
    (hrefs : ∀ q, h'.Refers p q → r.Inside h q) : r.Confined h' ∧ r.Inside h' p := by
  have hin : r.Inside h' p := .inr ⟨hp', fun hfirst => hp (hc.keeps p hfirst)⟩
  exact ⟨hc.writes hw hin fun q hq => (hrefs q hq).mono hw.keeps, hin⟩

/-! ## The changes that an evaluation makes -/

theorem newScope (hc : r.Confined h) {s : Scope}
    (hparent : ∀ parent, s.parent = some parent → r.Inside h (.scope parent))
    (hbindings : r.HoldsBindings h s.bindings) :
    r.Confined (h.newScope s).2 ∧ r.Inside (h.newScope s).2 (.scope h.scopes.size) := by
  have hs : (h.newScope s).2.scope h.scopes.size = s :=
    (Heap.scope_newScope h s _).trans (if_pos rfl)
  refine hc.makes (.newScope h s) (Nat.lt_irrefl _) ?_ fun q hq => ?_
  · exact Nat.lt_of_lt_of_eq (Nat.lt_succ_self _) (Heap.size_scopes_newScope h s).symm
  · cases hq with
    | parent hq =>
      rw [hs] at hq
      exact hparent _ hq
    | binding hb hq =>
      rw [hs] at hb
      exact hbindings _ _ hb _ hq

theorem newObject (hc : r.Confined h) {properties : Table Value}
    (hp : r.HoldsEntries h properties) :
    r.Confined (h.newObject properties).2 ∧
      r.Inside (h.newObject properties).2 (.object h.objects.size) := by
  refine hc.makes (.newObject h properties) (Nat.lt_irrefl _) ?_ fun q hq => ?_
  · exact Nat.lt_of_lt_of_eq (Nat.lt_succ_self _) (Array.size_push properties).symm
  · cases hq with
    | property hv hq =>
      rw [Heap.object_newObject, if_pos rfl] at hv
      exact hp _ _ hv _ hq

theorem newArray (hc : r.Confined h) {elements : Array Value}
    (he : ∀ v ∈ elements, r.Holds h v) :
    r.Confined (h.newArray elements).2 ∧
      r.Inside (h.newArray elements).2 (.array h.arrays.size) := by
  refine hc.makes (.newArray h elements) (Nat.lt_irrefl _) ?_ fun q hq => ?_
  · exact Nat.lt_of_lt_of_eq (Nat.lt_succ_self _) (Array.size_push elements).symm
  · cases hq with
    | element hv hq =>
      rw [Heap.array_newArray, if_pos rfl] at hv
      exact he _ hv _ hq

theorem newClosure (hc : r.Confined h) {c : Closure} (hscope : r.Inside h (.scope c.scope)) :
    r.Confined (h.newClosure c).2 ∧
      r.Inside (h.newClosure c).2 (.function h.closures.size) := by
  refine hc.makes (.newClosure h c) (Nat.lt_irrefl _) ?_ fun q hq => ?_
  · exact Nat.lt_of_lt_of_eq (Nat.lt_succ_self _) (Array.size_push c).symm
  · cases hq with
    | captured =>
      rw [Heap.closure_newClosure, if_pos rfl]
      exact hscope

/-- A scope inside may take a binding of what is inside. -/
theorem bind (hc : r.Confined h) {id : ScopeId} (hid : r.Inside h (.scope id)) (name : String)
    {b : Binding} (hb : r.Holds h b.value) :
    r.Confined (h.modifyBindings id (·.insert name b)) := by
  have hw := Heap.Writes.modifyBindings h id (·.insert name b)
  refine hc.writes hw (hid.mono hw.keeps) fun q hq => ?_
  cases hq with
  | parent hq =>
    rw [Heap.scope_modifyBindings] at hq
    refine (hc.closed _ _ hid (.parent ?_)).mono hw.keeps
    split at hq <;> exact hq
  | @binding _ other b' _ hb' hq =>
    rw [Heap.scope_modifyBindings] at hb'
    split at hb'
    · exact ((hc.holds_bindings hid).insert name hb _ _ hb' _ hq).mono hw.keeps
    · exact (hc.holds_bindings hid _ _ hb' _ hq).mono hw.keeps

theorem declare (hc : r.Confined h) {h' : Heap} {id : ScopeId} (hid : r.Inside h (.scope id))
    {name : String} {b : Binding} (hb : r.Holds h b.value) (hd : h.declare id name b = .ok h') :
    r.Confined h' ∧ h.Keeps h' := by
  obtain ⟨-, rfl⟩ := Heap.declare_eq_ok hd
  exact ⟨hc.bind hid name hb, (Heap.Writes.modifyBindings h id _).keeps⟩

theorem assign (hc : r.Confined h) {h' : Heap} {id : ScopeId} (hid : r.Inside h (.scope id))
    {name : String} (hv : r.Holds h v) (ha : h.assign id name v = .ok h') :
    r.Confined h' ∧ h.Keeps h' := by
  obtain ⟨holder, old, hholder, -, rfl⟩ := Heap.assign_eq_ok ha
  exact ⟨hc.bind (hc.inside_holder hid hholder) name hv,
    (Heap.Writes.modifyBindings h holder _).keeps⟩

theorem setProperty (hc : r.Confined h) {id : ObjectId} (hid : r.Inside h (.object id))
    (key : String) (hv : r.Holds h v) : r.Confined (h.modifyObject id (·.insert key v)) := by
  have hw := Heap.Writes.modifyObject h id (·.insert key v)
  refine hc.writes hw (hid.mono hw.keeps) fun q hq => ?_
  cases hq with
  | property hw' hq =>
    rw [Heap.object_modifyObject] at hw'
    split at hw'
    · exact ((hc.holds_properties hid).insert key hv _ _ hw' _ hq).mono hw.keeps
    · exact (hc.holds_properties hid _ _ hw' _ hq).mono hw.keeps

theorem modifyArray (hc : r.Confined h) {id : ArrayId} (hid : r.Inside h (.array id))
    {f : Array Value → Array Value} (hf : ∀ v ∈ f (h.array id), r.Holds h v) :
    r.Confined (h.modifyArray id f) := by
  have hw := Heap.Writes.modifyArray h id f
  refine hc.writes hw (hid.mono hw.keeps) fun q hq => ?_
  cases hq with
  | element hv hq =>
    rw [Heap.array_modifyArray] at hv
    split at hv
    · exact (hf _ hv _ hq).mono hw.keeps
    · exact (hc.holds_element hid hv _ hq).mono hw.keeps

end Confined

end Region

end DialectScript
