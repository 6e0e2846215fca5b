import DialectScript.Proofs.Numbers
import DialectScript.Proofs.Steps

/-!
# Members are checked when they are accessed

A member expression denotes a property of an object, or what an array has at an index
(`Expr.Targets`). Values are kept in slots, and a member is there if it denotes a slot that the heap
has (`Member.Present`). The value of an assignment is evaluated between the target and the writing,
and may change the very container that is written to. So an assignment asks twice for the slot, and
each answer is about the state in which it is given.

**Theorem (`Expr.member_checked`).** The readings and assignments of members end in the ways of
`Expr.Reads` and `Expr.Assigns`:

* with a fault or without fuel, and then in the state after the last part that was evaluated, or
* with a value; what is read is then in a slot of the denoted member, and what is assigned has
  overwritten such a slot and nothing else (`Heap.Overwrites`). In both cases the slot is one of the
  heap after the evaluation of all the parts.

An index denotes a slot exactly if it is a number and equal to a natural number below the length.
-/

namespace DialectScript

open Run

/-! ## Slots -/

/-- Where a value is kept: a property of an object, or an element of an array. -/
inductive Slot where
  | property (id : ObjectId) (key : String)
  | element (id : ArrayId) (i : Nat)

namespace Heap

/-- The value in a slot, if the heap has it. -/
def at? (h : Heap) : Slot → Option Value
  | .property id key => (h.object id).get? key
  | .element id i => (h.array id)[i]?

/-- Put a value in a slot. -/
def write (h : Heap) (v : Value) : Slot → Heap
  | .property id key => h.modifyObject id (·.insert key v)
  | .element id i => h.modifyArray id (·.setIfInBounds i v)

/-- The second heap is the first with another value in one of its slots. -/
structure Overwrites (h : Heap) (slot : Slot) (v : Value) (h' : Heap) : Prop where
  there : (h.at? slot).isSome = true
  at_slot : h'.at? slot = some v
  at_other : ∀ other, other ≠ slot → h'.at? other = h.at? other
  keys : ∀ id, (h'.object id).keys = (h.object id).keys
  objects : h'.objects.size = h.objects.size
  arrays : h'.arrays.size = h.arrays.size
  scopes : h'.scopes = h.scopes
  closures : h'.closures = h.closures

theorem overwrites_property {h : Heap} {id : ObjectId} {key : String}
    (hkey : (h.object id).contains key = true) (v : Value) :
    h.Overwrites (.property id key) v (h.modifyObject id (·.insert key v)) where
  there := hkey
  at_slot := by
    rw [at?, object_modifyObject, if_pos ⟨rfl, lt_of_contains hkey⟩, Table.get?_insert, if_pos rfl]
  at_other other hother := by
    cases other with
    | element => rfl
    | property id' key' =>
      rw [at?, at?, object_modifyObject]
      split
      · next h =>
        have hne : key' ≠ key := fun heq => hother (by rw [heq, h.1])
        rw [Table.get?_insert, if_neg hne, h.1]
      · rfl
  keys id' := by
    rw [object_modifyObject]
    split
    · next h => rw [Table.keys_insert_of_contains hkey, h.1]
    · rfl
  objects := Array.size_modify
  arrays := rfl
  scopes := rfl
  closures := rfl

theorem lt_of_element {h : Heap} {id : ArrayId} {i : Nat} (hi : i < (h.array id).size) :
    id < h.arrays.size := by
  refine Nat.lt_of_not_le fun hle => ?_
  rw [array, getD_of_size_le hle] at hi
  exact Nat.not_lt_zero i hi

theorem overwrites_element {h : Heap} {id : ArrayId} {i : Nat} (hi : i < (h.array id).size)
    (v : Value) : h.Overwrites (.element id i) v (h.modifyArray id (·.setIfInBounds i v)) where
  there := by rw [at?, Array.getElem?_eq_getElem hi, Option.isSome_some]
  at_slot := by
    rw [at?, array_modifyArray, if_pos ⟨rfl, lt_of_element hi⟩,
      Array.getElem?_setIfInBounds_self_of_lt hi]
  at_other other hother := by
    cases other with
    | property => rfl
    | element id' i' =>
      rw [at?, at?, array_modifyArray]
      split
      · next h =>
        have hne : i ≠ i' := fun heq => hother (by rw [heq, h.1])
        rw [Array.getElem?_setIfInBounds_ne hne, h.1]
      · rfl
  keys _ := rfl
  objects := rfl
  arrays := Array.size_modify
  scopes := rfl
  closures := rfl

theorem overwrites_write {h : Heap} {slot : Slot} (hslot : (h.at? slot).isSome = true) (v : Value) :
    h.Overwrites slot v (h.write v slot) := by
  cases slot with
  | property id key => exact overwrites_property hslot v
  | element id i =>
    rw [at?, isSome_getElem?] at hslot
    exact overwrites_element hslot v

end Heap

/-! ## Members -/

/-- A property of an object, or what an array has at an index. -/
inductive Member where
  | property (id : ObjectId) (key : String)
  | element (id : ArrayId) (index : Value)

namespace Member

/-- A property has a slot, and so has an index that is equal to a natural number. -/
inductive Denotes : Member → Slot → Prop
  | property (id : ObjectId) (key : String) : Denotes (.property id key) (.property id key)
  | element (id : ArrayId) {x : Float} {i : Nat} :
      Binary.rational? x = some (i : ℚ) → Denotes (.element id (.number x)) (.element id i)

/-- The member denotes a slot that the heap has. -/
def Present (m : Member) (h : Heap) : Prop := ∃ slot, m.Denotes slot ∧ (h.at? slot).isSome = true

/-- What is wrong with a member that is not there. -/
def cause (h : Heap) : Member → FaultCause
  | .property _ key => .propertyNotFound key
  | .element id (.number x) => .indexOutOfBounds x (h.array id).size
  | .element _ index => .invalidIndex index.type

/-- Find the slot of a member. -/
def locate : Member → Run Slot
  | .property id key => do
    let _ ← readProperty id key
    return .property id key
  | .element id index => do
    let i ← slotOf id index
    return .element id i

end Member

/-- An index denotes a place in an array exactly if it is a natural number below the length. -/
theorem Value.slot_eq_ok_iff (index : Value) (length i : Nat) :
    index.slot length = .ok i ↔
      ∃ x, index = .number x ∧ Binary.rational? x = some (i : ℚ) ∧ i < length := by
  cases index with
  | number x =>
    simp only [slot, number.injEq, exists_eq_left', ← Binary.natural?_ofFloat_eq_some_iff]
    cases (Binary.ofFloat x).natural? with
    | none => simp
    | some j =>
      by_cases hj : j < length
      · simp only [hj, if_true, Except.ok.injEq, Option.some.injEq]
        exact ⟨fun h => ⟨h, h ▸ hj⟩, And.left⟩
      · simp only [hj, if_false, Option.some.injEq, reduceCtorEq, false_iff]
        rintro ⟨rfl, hi⟩
        exact hj hi
  | _ => simp [slot]

namespace Member

theorem locate_property (id : ObjectId) (key : String) (s : State) :
    (property id key).locate s =
      if (s.heap.object id).contains key then .ok (.property id key) s
      else .error (.fault (.ofCause (.propertyNotFound key))) s := by
  cases hkey : (s.heap.object id).get? key <;>
    simp only [locate, bind, EStateM.bind, readProperty_eq, Table.contains, hkey] <;> rfl

theorem locate_element (id : ArrayId) (index : Value) (s : State) :
    (element id index).locate s = match index.slot (s.heap.array id).size with
      | .ok i => .ok (.element id i) s
      | .error f => .error (.fault f) s := by
  cases hslot : index.slot (s.heap.array id).size <;>
    simp only [locate, bind, EStateM.bind, slotOf, fromHeap, hslot] <;> rfl

/-- Where an index denotes no place, the fault names the index and the length, or what it is
instead of a number. -/
theorem eq_cause_of_slot {h : Heap} {id : ArrayId} {index : Value} {f : Fault}
    (hf : index.slot (h.array id).size = .error f) : f = .ofCause ((element id index).cause h) := by
  unfold Value.slot at hf
  split at hf
  · split at hf
    · split at hf
      · cases hf
      · cases hf
        rfl
    · cases hf
      rfl
  · next hne =>
    cases hf
    cases index with
    | number x => exact (hne x rfl).elim
    | _ => rfl

/-- The slot of an index is found exactly if it is there. -/
theorem slot_eq_ok_iff_denotes (h : Heap) (id : ArrayId) (index : Value) (i : Nat) :
    index.slot (h.array id).size = .ok i ↔
      (element id index).Denotes (.element id i) ∧ (h.at? (.element id i)).isSome = true := by
  rw [Value.slot_eq_ok_iff, Heap.at?, isSome_getElem?]
  constructor
  · rintro ⟨x, rfl, hx, hi⟩
    exact ⟨.element id hx, hi⟩
  · rintro ⟨hdenotes, hi⟩
    cases hdenotes with
    | element _ hx => exact ⟨_, rfl, hx, hi⟩

/-- The slot of a member is found if it is there, and otherwise the member is at fault. -/
theorem locate_cases (m : Member) (s : State) :
    (∃ slot, m.Denotes slot ∧ (s.heap.at? slot).isSome = true ∧ m.locate s = .ok slot s) ∨
      (¬ m.Present s.heap ∧ m.locate s = .error (.fault (.ofCause (m.cause s.heap))) s) := by
  cases m with
  | property id key =>
    rw [locate_property]
    by_cases hkey : (s.heap.object id).contains key = true
    · exact .inl ⟨_, .property id key, hkey, if_pos hkey⟩
    · refine .inr ⟨?_, if_neg hkey⟩
      rintro ⟨slot, hdenotes, hslot⟩
      cases hdenotes
      exact hkey hslot
  | element id index =>
    rw [locate_element]
    have hiff := slot_eq_ok_iff_denotes s.heap id index
    cases hi : index.slot (s.heap.array id).size with
    | ok i =>
      obtain ⟨hdenotes, hslot⟩ := (hiff i).1 hi
      exact .inl ⟨_, hdenotes, hslot, rfl⟩
    | error f =>
      rw [eq_cause_of_slot hi]
      refine .inr ⟨?_, rfl⟩
      rintro ⟨slot, hdenotes, hslot⟩
      cases hdenotes with
      | element _ hx =>
        rw [(hiff _).2 ⟨.element id hx, hslot⟩] at hi
        cases hi

end Member

/-! ## Member expressions -/

/-- Whether a value has members that are accessed in this way. -/
def Access.suits : Access → Value → Bool
  | .dot, .object _ => true
  | .bracket, .array _ => true
  | _, _ => false

namespace Expr

section

variable (eval : Expr → Run Value) (object property : Expr) (access : Access)

/-- Find the member that an expression denotes. -/
def target : Run Member := do
  let container ← eval object
  match container, access with
  | .object id, .dot =>
    let key ← ofExcept property.propertyName
    return .property id key
  | .array id, .bracket =>
    let index ← eval property
    return .element id index
  | v, access => fault (.invalidMemberAccess access v.type)

/-- Which member an expression denotes, or why it denotes none, and the state after the evaluation
of its last part. -/
inductive Targets (s : State) : EStateM.Result Stop State Member → Prop
  | stopped {stop : Stop} {t : State} :
      eval object s = .error stop t → Targets s (.error stop t)
  | unsuited {v : Value} {t : State} :
      eval object s = .ok v t → access.suits v = false →
      Targets s (.error (.fault (.ofCause (.invalidMemberAccess access v.type))) t)
  | property {id : ObjectId} {key : String} {t : State} :
      access = .dot → eval object s = .ok (.object id) t → property.propertyName = .ok key →
      Targets s (.ok (.property id key) t)
  | nameless {id : ObjectId} {f : Fault} {t : State} :
      access = .dot → eval object s = .ok (.object id) t → property.propertyName = .error f →
      Targets s (.error (.fault f) t)
  | element {id : ArrayId} {index : Value} {t u : State} :
      access = .bracket → eval object s = .ok (.array id) t → eval property t = .ok index u →
      Targets s (.ok (.element id index) u)
  | indexStopped {id : ArrayId} {stop : Stop} {t u : State} :
      access = .bracket → eval object s = .ok (.array id) t → eval property t = .error stop u →
      Targets s (.error stop u)

/-- How the reading of a member ends. -/
inductive Reads (s : State) : EStateM.Result Stop State Value → Prop
  | stopped {stop : Stop} {t : State} :
      Targets eval object property access s (.error stop t) → Reads s (.error stop t)
  | missing {m : Member} {t : State} :
      Targets eval object property access s (.ok m t) → ¬ m.Present t.heap →
      Reads s (.error (.fault (.ofCause (m.cause t.heap))) t)
  | found {m : Member} {slot : Slot} {v : Value} {t : State} :
      Targets eval object property access s (.ok m t) → m.Denotes slot →
      t.heap.at? slot = some v → Reads s (.ok v t)

/-- How the assignment of an expression to a member ends. -/
inductive Assigns (value : Expr) (s : State) : EStateM.Result Stop State Value → Prop
  | stopped {stop : Stop} {t : State} :
      Targets eval object property access s (.error stop t) → Assigns value s (.error stop t)
  | missing {m : Member} {t : State} :
      Targets eval object property access s (.ok m t) → ¬ m.Present t.heap →
      Assigns value s (.error (.fault (.ofCause (m.cause t.heap))) t)
  | valueStopped {m : Member} {stop : Stop} {t u : State} :
      Targets eval object property access s (.ok m t) → m.Present t.heap →
      eval value t = .error stop u → Assigns value s (.error stop u)
  /-- The slot was there, and has gone when the value is evaluated. -/
  | lost {m : Member} {v : Value} {t u : State} :
      Targets eval object property access s (.ok m t) → m.Present t.heap →
      eval value t = .ok v u → ¬ m.Present u.heap →
      Assigns value s (.error (.fault (.ofCause (m.cause u.heap))) u)
  | stored {m : Member} {slot : Slot} {v : Value} {t u : State} {heap : Heap} :
      Targets eval object property access s (.ok m t) → m.Present t.heap →
      eval value t = .ok v u → m.Denotes slot → u.heap.Overwrites slot v heap →
      Assigns value s (.ok v { u with heap })

theorem targets_target (s : State) :
    Targets eval object property access s (target eval object property access s) := by
  unfold target
  simp only [bind, EStateM.bind]
  cases hobject : eval object s with
  | error stop t => exact .stopped hobject
  | ok container t =>
    cases container <;> cases access
    case object.dot id =>
      cases hkey : property.propertyName with
      | ok key => exact .property rfl hobject hkey
      | error f => exact .nameless rfl hobject hkey
    case array.bracket id =>
      simp only [EStateM.bind]
      cases hindex : eval property t with
      | ok index u => exact .element rfl hobject hindex
      | error stop u => exact .indexStopped rfl hobject hindex
    all_goals exact .unsuited hobject rfl

end

section

variable (n : Nat) (scope : ScopeId) (object property : Expr) (access : Access)

/-- To read a member is to find its slot and look there. -/
theorem eval_member_eq : (member object property access).eval (n + 1) scope =
    (do
      let m ← target (eval n scope) object property access
      let slot ← m.locate
      fromHeap fun h => (h.at? slot).getD .null) := by
  unfold Expr.eval target
  simp only [bind_assoc]
  congr
  funext container
  cases container <;> cases access <;> try rfl
  case object.dot id =>
    simp only [propertyKey_standard, bind_assoc, pure_bind]
    congr
    funext key s
    simp only [bind, EStateM.bind, readProperty_eq, Member.locate_property]
    cases hkey : (s.heap.object id).get? key <;>
      simp [Table.contains, hkey, fromHeap, Heap.at?]
  case array.bracket id =>
    simp only [bind_assoc, pure_bind, Member.locate, readElement, Heap.at?,
      Array.getD_eq_getD_getElem?]

/-- To assign to a member is to find its slot twice and put the value there. -/
theorem evalAssign_member_eq (value : Expr) :
    (member object property access).evalAssign (n + 1) scope value =
      (do
        let m ← target (eval n scope) object property access
        let _ ← m.locate
        let v ← value.eval n scope
        let slot ← m.locate
        change (·.write v slot)
        return v) := by
  unfold Expr.evalAssign target
  simp only [bind_assoc]
  congr
  funext container
  cases container <;> cases access <;> try rfl
  all_goals
    simp only [propertyKey_standard, bind_assoc, pure_bind, Member.locate]
    rfl

theorem reads_eval (s : State) :
    Reads (eval n scope) object property access s
      ((member object property access).eval (n + 1) scope s) := by
  have htarget := targets_target (eval n scope) object property access s
  simp only [eval_member_eq, bind, EStateM.bind]
  generalize target (eval n scope) object property access s = result at htarget ⊢
  cases result with
  | error stop t => exact .stopped htarget
  | ok m t =>
    dsimp only
    obtain ⟨slot, hdenotes, hslot, hlocate⟩ | ⟨hmissing, hlocate⟩ := m.locate_cases t
    · rw [hlocate]
      obtain ⟨v, hv⟩ := Option.isSome_iff_exists.1 hslot
      simp only [fromHeap, hv]
      exact .found htarget hdenotes hv
    · rw [hlocate]
      exact .missing htarget hmissing

theorem assigns_evalAssign (value : Expr) (s : State) :
    Assigns (eval n scope) object property access value s
      ((member object property access).evalAssign (n + 1) scope value s) := by
  have htarget := targets_target (eval n scope) object property access s
  simp only [evalAssign_member_eq, bind, EStateM.bind]
  generalize target (eval n scope) object property access s = result at htarget ⊢
  cases result with
  | error stop t => exact .stopped htarget
  | ok m t =>
    dsimp only
    obtain ⟨slot, hdenotes, hslot, hlocate⟩ | ⟨hmissing, hlocate⟩ := m.locate_cases t
    · rw [hlocate]
      dsimp only
      have hpresent : m.Present t.heap := ⟨slot, hdenotes, hslot⟩
      -- The value may take the member away, so it is looked for once more.
      cases hvalue : value.eval n scope t with
      | error stop u => exact .valueStopped htarget hpresent hvalue
      | ok v u =>
        dsimp only
        obtain ⟨slot', hdenotes', hslot', hlocate'⟩ | ⟨hlost, hlocate'⟩ := m.locate_cases u
        · rw [hlocate']
          exact .stored htarget hpresent hvalue hdenotes' (Heap.overwrites_write hslot' v)
        · rw [hlocate']
          exact .lost htarget hpresent hvalue hlost
    · rw [hlocate]
      exact .missing htarget hmissing

/-- Members are checked in the state in which they are accessed, and all is written or nothing. -/
theorem member_checked (s : State) :
    Reads (eval n scope) object property access s
        ((member object property access).eval (n + 1) scope s) ∧
      (∀ value, Assigns (eval n scope) object property access value s
        ((assign (member object property access) value).eval (n + 2) scope s)) ∧
      (∀ (index : Value) (length i : Nat), index.slot length = .ok i ↔
        ∃ x, index = .number x ∧ Binary.rational? x = some (i : ℚ) ∧ i < length) ∧
      (∀ x : Float, Binary.rational? x = none ↔ x.isNaN = true ∨ x.isInf = true) ∧
      Binary.rational? 0.0 = some 0 ∧ Binary.rational? (-0.0) = some 0 := by
  refine ⟨reads_eval n scope object property access s, fun value => ?_, Value.slot_eq_ok_iff,
    Binary.rational?_eq_none_iff, rfl, rfl⟩
  rw [eval]
  exact assigns_evalAssign n scope object property access value s

/-- The array loses its last element while the value is evaluated. -/
example :
    let xs := identifier "xs"
    let globals : Table Binding :=
      (Table.empty.insert "xs" ⟨.array 0, .constant⟩).insert "pop" ⟨.builtin .pop, .constant⟩
    let heap : Heap := ⟨#[⟨globals, none⟩], #[], #[#[.number 1.0, .number 2.0]], #[]⟩
    let last := assign (member xs (.number 1.0) .bracket) (call (identifier "pop") [xs])
    (match last.eval 6 0 ⟨heap, default, .empty none⟩ with
      | .error (.fault f) t => some (f.cause, t.heap.array 0)
      | _ => none) = some (.indexOutOfBounds 1.0 1, #[.number 1.0]) := by
  decide +kernel

end

end Expr

end DialectScript
