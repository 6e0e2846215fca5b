import DialectScript.Program.Basic
import DialectScript.Value.Basic
import DialectScript.Value.Table

/-!
# The heap

The heap holds every scope, object, array and function that a script has made. Cells are only
ever added and never taken away. Reading a place that was never given out finds an empty cell.
-/

namespace DialectScript

/-- A name's value, and whether it may be assigned again. -/
structure Binding where
  value : Value
  mutability : Mutability
deriving DecidableEq, Inhabited

/-- A scope: its own bindings and the scope around it. -/
structure Scope where
  bindings : Table Binding
  parent : Option ScopeId
deriving Inhabited

/-- A declared function and the scope it was declared in. -/
structure Closure where
  name : String
  params : List String
  body : List Stmt
  scope : ScopeId
deriving Inhabited

/-- Everything a script has made. -/
structure Heap where
  scopes : Array Scope
  objects : Array (Table Value)
  arrays : Array (Array Value)
  closures : Array Closure

namespace Heap

/-- The heap in which nothing has been made yet. -/
def empty : Heap := ⟨#[], #[], #[], #[]⟩

instance : Inhabited Heap := ⟨empty⟩

/-! ## Reading a cell -/

def scope (h : Heap) (id : ScopeId) : Scope := h.scopes.getD id default

def object (h : Heap) (id : ObjectId) : Table Value := h.objects.getD id default

def array (h : Heap) (id : ArrayId) : Array Value := h.arrays.getD id default

def closure (h : Heap) (id : FunctionId) : Closure := h.closures.getD id default

/-! ## Making a cell -/

def newScope (h : Heap) (s : Scope) : ScopeId × Heap :=
  (h.scopes.size, { h with scopes := h.scopes.push s })

def newObject (h : Heap) (properties : Table Value) : ObjectId × Heap :=
  (h.objects.size, { h with objects := h.objects.push properties })

def newArray (h : Heap) (elements : Array Value) : ArrayId × Heap :=
  (h.arrays.size, { h with arrays := h.arrays.push elements })

def newClosure (h : Heap) (c : Closure) : FunctionId × Heap :=
  (h.closures.size, { h with closures := h.closures.push c })

/-! ## Changing a cell -/

/-- Change the bindings of a scope. -/
def modifyBindings (h : Heap) (id : ScopeId) (f : Table Binding → Table Binding) : Heap :=
  { h with scopes := h.scopes.modify id fun s => { s with bindings := f s.bindings } }

/-- Change the properties of an object. -/
def modifyObject (h : Heap) (id : ObjectId) (f : Table Value → Table Value) : Heap :=
  { h with objects := h.objects.modify id f }

/-- Change the elements of an array. -/
def modifyArray (h : Heap) (id : ArrayId) (f : Array Value → Array Value) : Heap :=
  { h with arrays := h.arrays.modify id f }

/-! ## Reading a cell afterwards -/

section

variable {α : Type} [Inhabited α]

theorem getD_of_size_le {cells : Array α} {id : Nat} (h : cells.size ≤ id) :
    cells.getD id default = default := by
  rw [Array.getD_eq_getD_getElem?, Array.getElem?_eq_none h, Option.getD_none]

theorem getD_push (cells : Array α) (cell : α) (id : Nat) :
    (cells.push cell).getD id default =
      if id = cells.size then cell else cells.getD id default := by
  simp only [Array.getD_eq_getD_getElem?, Array.getElem?_push]
  split <;> rfl

theorem getD_modify (cells : Array α) (id : Nat) (f : α → α) (other : Nat) :
    (cells.modify id f).getD other default =
      if other = id ∧ id < cells.size then f (cells.getD id default)
      else cells.getD other default := by
  simp only [Array.getD_eq_getD_getElem?, Array.getElem?_modify]
  by_cases hid : other = id
  · subst hid
    by_cases hlt : other < cells.size <;> simp [hlt]
  · simp [hid, Ne.symm hid]

end

theorem scope_newScope (h : Heap) (s : Scope) (id : ScopeId) :
    (h.newScope s).2.scope id = if id = h.scopes.size then s else h.scope id :=
  getD_push h.scopes s id

theorem object_newObject (h : Heap) (properties : Table Value) (id : ObjectId) :
    (h.newObject properties).2.object id =
      if id = h.objects.size then properties else h.object id :=
  getD_push h.objects properties id

theorem array_newArray (h : Heap) (elements : Array Value) (id : ArrayId) :
    (h.newArray elements).2.array id = if id = h.arrays.size then elements else h.array id :=
  getD_push h.arrays elements id

theorem closure_newClosure (h : Heap) (c : Closure) (id : FunctionId) :
    (h.newClosure c).2.closure id = if id = h.closures.size then c else h.closure id :=
  getD_push h.closures c id

theorem scope_modifyBindings (h : Heap) (id : ScopeId) (f : Table Binding → Table Binding)
    (other : ScopeId) :
    (h.modifyBindings id f).scope other =
      if other = id ∧ id < h.scopes.size then
        { h.scope id with bindings := f (h.scope id).bindings }
      else h.scope other :=
  getD_modify h.scopes id _ other

theorem object_modifyObject (h : Heap) (id : ObjectId) (f : Table Value → Table Value)
    (other : ObjectId) :
    (h.modifyObject id f).object other =
      if other = id ∧ id < h.objects.size then f (h.object id) else h.object other :=
  getD_modify h.objects id f other

theorem array_modifyArray (h : Heap) (id : ArrayId) (f : Array Value → Array Value)
    (other : ArrayId) :
    (h.modifyArray id f).array other =
      if other = id ∧ id < h.arrays.size then f (h.array id) else h.array other :=
  getD_modify h.arrays id f other

@[simp] theorem size_scopes_modifyBindings (h : Heap) (id : ScopeId)
    (f : Table Binding → Table Binding) : (h.modifyBindings id f).scopes.size = h.scopes.size :=
  Array.size_modify

@[simp] theorem size_scopes_newScope (h : Heap) (s : Scope) :
    (h.newScope s).2.scopes.size = h.scopes.size + 1 :=
  Array.size_push s

end Heap

end DialectScript
