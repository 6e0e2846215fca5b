import DialectScript.Value.Heap

/-!
# Scopes

A name means what the nearest scope that binds it says, going outwards along the chain of
parents. A declaration binds in the scope itself; an assignment changes the nearest binding,
unless that is a constant.
-/

namespace DialectScript

/-- Why a declaration, an assignment or a reading fails. -/
inductive ScopeError where
  /-- No scope of the chain binds the name. -/
  | undeclared
  /-- The scope itself binds the name already. -/
  | redeclared
  /-- The nearest binding is a constant. -/
  | constant
deriving DecidableEq

namespace Heap

/-- At most `n` scopes of the chain that goes outwards from a scope. -/
def chainFrom (h : Heap) : Nat → ScopeId → List ScopeId
  | 0, _ => []
  | n + 1, id =>
    id :: match (h.scope id).parent with
      | none => []
      | some parent => h.chainFrom n parent

/-- The chain that goes outwards from a scope. A chain without repetition is no longer than the
number of scopes. -/
def chain (h : Heap) (id : ScopeId) : List ScopeId := h.chainFrom h.scopes.size id

/-- Whether a scope itself binds a name. -/
def binds (h : Heap) (id : ScopeId) (name : String) : Bool := (h.scope id).bindings.contains name

/-- The nearest scope that binds a name. -/
def holder? (h : Heap) (id : ScopeId) (name : String) : Option ScopeId :=
  (h.chain id).find? fun s => h.binds s name

/-- The nearest binding of a name. -/
def lookup (h : Heap) (id : ScopeId) (name : String) : Option Binding :=
  match h.holder? id name with
  | none => none
  | some s => (h.scope s).bindings.get? name

/-- The value of a name. -/
def read (h : Heap) (id : ScopeId) (name : String) : Except ScopeError Value :=
  match h.lookup id name with
  | none => .error .undeclared
  | some b => .ok b.value

/-- Bind a name in the scope itself. -/
def declare (h : Heap) (id : ScopeId) (name : String) (b : Binding) : Except ScopeError Heap :=
  if h.binds id name then .error .redeclared
  else .ok (h.modifyBindings id (·.insert name b))

/-- Give a name a new value, in the nearest scope that binds it. -/
def assign (h : Heap) (id : ScopeId) (name : String) (v : Value) : Except ScopeError Heap :=
  match h.holder? id name with
  | none => .error .undeclared
  | some s =>
    match (h.scope s).bindings.get? name with
    | none => .error .undeclared
    | some ⟨_, .constant⟩ => .error .constant
    | some ⟨_, .mutable⟩ => .ok (h.modifyBindings s (·.insert name ⟨v, .mutable⟩))

/-! ## When an operation succeeds -/

section

variable {h h' : Heap} {id : ScopeId} {name : String}

/-- The value of a name is that of its binding in the nearest scope that binds it. -/
theorem read_eq_ok {v : Value} (hv : h.read id name = .ok v) :
    ∃ holder b, h.holder? id name = some holder ∧
      (h.scope holder).bindings.get? name = some b ∧ b.value = v := by
  unfold read lookup at hv
  split at hv
  · cases hv
  · next b hb =>
    cases hv
    split at hb
    · cases hb
    · next holder hholder => exact ⟨holder, b, hholder, hb, rfl⟩

/-- A declaration adds a binding to a scope that does not bind the name. -/
theorem declare_eq_ok {b : Binding} (hd : h.declare id name b = .ok h') :
    h.binds id name = false ∧ h' = h.modifyBindings id (·.insert name b) := by
  unfold declare at hd
  split at hd
  · cases hd
  · next hbinds =>
    cases hd
    exact ⟨Bool.eq_false_iff.2 hbinds, rfl⟩

/-- An assignment changes the value of a binding that is no constant. -/
theorem assign_eq_ok {v : Value} (ha : h.assign id name v = .ok h') :
    ∃ holder old, h.holder? id name = some holder ∧
      (h.scope holder).bindings.get? name = some ⟨old, .mutable⟩ ∧
      h' = h.modifyBindings holder (·.insert name ⟨v, .mutable⟩) := by
  unfold assign at ha
  split at ha
  · cases ha
  · next holder hholder =>
    split at ha
    · cases ha
    · cases ha
    · next old hold =>
      cases ha
      exact ⟨holder, old, hholder, hold, rfl⟩

end

/-! ## Making a scope -/

/-- A new scope inside another. -/
def child (h : Heap) (id : ScopeId) : ScopeId × Heap := h.newScope ⟨.empty, some id⟩

/-- A new scope that stands alone. -/
def root (h : Heap) : ScopeId × Heap := h.newScope ⟨.empty, none⟩

/-! ## The bodies of functions -/

/-- The body of every function in the heap satisfies `P`. -/
def Bodies (P : List Stmt → Prop) (h : Heap) : Prop := ∀ c ∈ h.closures, P c.body

namespace Bodies

variable {P : List Stmt → Prop} {h h' : Heap}

/-- There is no statement in the body of a function that is not there. -/
theorem closure (hh : h.Bodies P) (hnil : P []) (id : FunctionId) : P (h.closure id).body := by
  rw [Heap.closure, Array.getD_eq_getD_getElem?]
  cases hc : h.closures[id]? with
  | none => exact hnil
  | some c => exact hh c (Array.mem_of_getElem? hc)

theorem newClosure (hh : h.Bodies P) {c : Closure} (hc : P c.body) :
    (h.newClosure c).2.Bodies P := by
  intro d hd
  rcases Array.mem_push.1 hd with hd | rfl
  · exact hh d hd
  · exact hc

theorem declare (hh : h.Bodies P) {id : ScopeId} {name : String} {b : Binding}
    (hd : h.declare id name b = .ok h') : h'.Bodies P := by
  obtain ⟨-, rfl⟩ := declare_eq_ok hd
  exact hh

theorem assign (hh : h.Bodies P) {id : ScopeId} {name : String} {v : Value}
    (ha : h.assign id name v = .ok h') : h'.Bodies P := by
  obtain ⟨holder, old, -, -, rfl⟩ := assign_eq_ok ha
  exact hh

end Bodies

end Heap

end DialectScript
