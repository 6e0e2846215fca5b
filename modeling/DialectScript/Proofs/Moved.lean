import DialectScript.Proofs.Locality
import DialectScript.Value.Display

/-!
# The same at other places

Containers are told apart by their places, so what a script makes twice has the same text only in
the sense of this file: the places of the first are moved to those of the second.

* `Heap.Closed` — no place is held that was not given out. **Every evaluation keeps it**
  (`EvaluationFrom.closed`), and so it holds throughout a session (`Session.Closed`).
* `Shift.Carries` — the second heap has at the moved places what the first has, moved. A shift
  moves only the objects and arrays from some place on, and nothing that a scope holds.
* `Heap.Closed.exists_shift` — **a closed heap is carried to itself with more objects and arrays**.
  A place that was held without having been given out would stand for one of those afterwards.
* `Shift.Carries.display` — a value and the moved one have the same text.
-/

namespace DialectScript

/-! ## Heaps in which nothing is missing -/

namespace Heap

variable {h h' : Heap}

/-- What a value holds has been given out. -/
def Holds (h : Heap) (v : Value) : Prop := ∀ p, v.place? = some p → h.Has p

/-- Every place that is held has been given out. -/
def Closed (h : Heap) : Prop := ∀ p q, h.Has p → h.Refers p q → h.Has q

end Heap

/-- The region to which every place belongs. -/
def Region.everything : Region := ⟨.empty, fun _ => False⟩

namespace Region

variable {h : Heap} {p : Place} {v : Value}

theorem inside_everything : everything.Inside h p ↔ h.Has p := by
  constructor
  · rintro (⟨root, hroot, -⟩ | ⟨hp, -⟩)
    · exact hroot.elim
    · exact hp
  · intro hp
    refine .inr ⟨hp, fun hempty => ?_⟩
    cases p <;> exact absurd hempty (Nat.not_lt_zero _)

theorem holds_everything : everything.Holds h v ↔ h.Holds v := by
  simp only [Holds, Heap.Holds, inside_everything]

theorem confined_everything : everything.Confined h ↔ h.Closed := by
  constructor
  · intro hc p q hp hq
    exact inside_everything.1 (hc.closed p q (inside_everything.2 hp) hq)
  · intro hh
    refine ⟨fun p hp => ?_, fun p q hp hq => ?_, fun p hp => ?_⟩
    · cases p <;> exact absurd hp (Nat.not_lt_zero _)
    · exact inside_everything.2 (hh p q (inside_everything.1 hp) hq)
    · cases p <;> exact absurd hp (Nat.not_lt_zero _)

end Region

namespace EvaluationFrom

variable {fuel : Nat} {roots : Place → Prop} {x : Run Value} {s : State}

theorem stays_everything (hx : EvaluationFrom fuel roots x) (hs : s.heap.Closed)
    (hroots : ∀ p, roots p → s.heap.Has p) :
    Run.Stays .everything s x Region.everything.Holds := by
  have hall := allStay .everything fuel
  have hc := Region.confined_everything.2 hs
  have hin {p : Place} (hp : roots p) : Region.everything.Inside s.heap p :=
    Region.inside_everything.2 (hroots p hp)
  cases hx with
  | statement scope st => exact hall.stmt hc (hin rfl) st
  | expression scope e => exact hall.expr hc (hin rfl) e
  | program scope p => exact hall.body hc (hin rfl) p (Region.holds_of_place?_eq_none rfl)
  | call callee args =>
    exact hall.call hc (fun p hp => hin ⟨callee, List.mem_cons_self, hp⟩)
      fun v hv p hp => hin ⟨v, List.mem_cons_of_mem callee hv, hp⟩

/-- An evaluation that starts from places that have been given out leaves nothing missing, and what
it ends with has been given out. -/
theorem closed (hx : EvaluationFrom fuel roots x) (hs : s.heap.Closed)
    (hroots : ∀ p, roots p → s.heap.Has p) :
    (x.final s).heap.Closed ∧ ∀ v t, x s = .ok v t → t.heap.Holds v := by
  have hstays := hx.stays_everything hs hroots
  refine ⟨Region.confined_everything.1 hstays.confined, fun v t ht => ?_⟩
  exact Region.holds_everything.1 (hstays.result v t ht)

end EvaluationFrom

namespace Heap

variable {h : Heap}

/-! ## The heap of a session -/

theorem closed_empty : empty.Closed := fun p _ hp _ => by
  cases p <;> exact absurd hp (Nat.not_lt_zero _)

theorem confined_provide {r : Region} (hc : r.Confined h) {id : ScopeId}
    (hid : r.Inside h (.scope id)) (name : String) {v : Value} (hv : r.Holds h v) :
    r.Confined (h.provide id name v) ∧ h.Keeps (h.provide id name v) := by
  unfold provide
  split
  · next hd => exact hc.declare hid hv hd
  · exact ⟨hc, .refl h⟩

theorem confined_provides {r : Region} {id : ScopeId} (globals : List (String × Value))
    (hc : r.Confined h) (hid : r.Inside h (.scope id)) (hg : ∀ g ∈ globals, r.Holds h g.2) :
    r.Confined (globals.foldl (fun h (name, v) => h.provide id name v) h) ∧
      h.Keeps (globals.foldl (fun h (name, v) => h.provide id name v) h) := by
  induction globals generalizing h with
  | nil => exact ⟨hc, .refl h⟩
  | cons g globals ih =>
    obtain ⟨hc', hk⟩ := confined_provide hc hid g.1 (hg g List.mem_cons_self)
    obtain ⟨hc'', hk'⟩ := ih hc' (hid.mono hk) fun g' hg' =>
      (hg g' (List.mem_cons_of_mem g hg')).mono hk
    exact ⟨hc'', hk.trans hk'⟩

theorem holdsEntries_arrayOperations (r : Region) :
    r.HoldsEntries h Builtin.arrayOperations :=
  List.foldlRecOn _ _ Region.holdsEntries_empty fun _ ht _ _ =>
    ht.insert _ (Region.holds_of_place?_eq_none rfl)

theorem confined_install {r : Region} (hc : r.Confined h) {id : ScopeId}
    (hid : r.Inside h (.scope id)) : r.Confined (h.install id) ∧ h.Keeps (h.install id) := by
  obtain ⟨hobject, hoperations⟩ := hc.newObject (holdsEntries_arrayOperations r)
  have hkeeps := (Writes.newObject h Builtin.arrayOperations).keeps
  refine (confined_provides _ hobject (hid.mono hkeeps) fun g hg => ?_).imp_right hkeeps.trans
  simp only [List.mem_cons, List.not_mem_nil, or_false] at hg
  rcases hg with rfl | rfl | rfl | rfl | rfl | rfl | rfl
  case inr.inr.inr.inr.inr.inr => exact hoperations.holds rfl
  all_goals exact Region.holds_of_place?_eq_none rfl

/-- Making a scope that holds the built-ins leaves nothing missing, and the scope is there. -/
theorem Closed.global (hh : h.Closed) : h.global.2.Closed ∧ h.global.2.Has (.scope h.global.1) := by
  have hc := Region.confined_everything.2 hh
  obtain ⟨hroot, hid⟩ := hc.newScope (s := ⟨.empty, none⟩) nofun nofun
  obtain ⟨hinstall, hkeeps⟩ : Region.everything.Confined (h.root.2.install h.root.1) ∧
      h.root.2.Keeps (h.root.2.install h.root.1) := confined_install hroot hid
  simp only [Heap.global]
  exact ⟨Region.confined_everything.1 hinstall, hkeeps _ (Region.inside_everything.1 hid)⟩

end Heap

namespace Session

/-- Nothing is missing in the heap, and the scope of the session is there. -/
structure Closed (s : Session) : Prop where
  heap : s.state.heap.Closed
  scope : s.state.heap.Has (.scope s.scope)

theorem closed_start (options : Options) (output : Output) : (start options output).Closed where
  heap := Heap.closed_empty.global.1
  scope := Heap.closed_empty.global.2

theorem Closed.runSource {s : Session} (hs : s.Closed) (fuel : Nat) (source : String) :
    (s.runSource fuel source).2.Closed := by
  rw [Session.runSource]
  cases Program.ofSource s.dialect source with
  | error e => exact hs
  | ok program =>
    have hx : EvaluationFrom fuel (· = .scope s.scope) (program.run fuel s.scope) :=
      .program s.scope program
    have hroots : ∀ p, p = .scope s.scope → s.state.heap.Has p := fun p hp => hp ▸ hs.scope
    dsimp only
    rw [s.runProgram_snd fuel program]
    exact ⟨(hx.closed hs.heap hroots).1, (hx.stays_everything hs.heap hroots).keeps _ hs.scope⟩

end Session

namespace Heap

variable {h : Heap}

/-! ## What is held where nothing is missing -/

namespace Closed

theorem binding (hh : h.Closed) {id : ScopeId} {name : String} {b : Binding}
    (hb : (h.scope id).bindings.get? name = some b) : h.Holds b.value := by
  intro p hp
  by_cases hid : id < h.scopes.size
  · exact hh (.scope id) p hid (.binding hb hp)
  · rw [scope, getD_of_size_le (Nat.le_of_not_lt hid)] at hb
    cases hb

theorem property (hh : h.Closed) {id : ObjectId} (hid : id < h.objects.size) {key : String}
    {v : Value} (hv : (h.object id).get? key = some v) : h.Holds v :=
  fun p hp => hh (.object id) p hid (.property hv hp)

theorem element (hh : h.Closed) {id : ArrayId} (hid : id < h.arrays.size) {v : Value}
    (hv : v ∈ h.array id) : h.Holds v :=
  fun p hp => hh (.array id) p hid (.element hv hp)

end Closed

end Heap

/-! ## Changing every entry of a table -/

namespace Table

variable {α β : Type}

/-- The table with every entry changed. -/
def map (f : α → β) (t : Table α) : Table β where
  entries := t.entries.map fun (key, a) => (key, f a)
  nodup := by
    rw [List.map_map]
    exact t.nodup

theorem get?_map (f : α → β) (t : Table α) (key : String) :
    (t.map f).get? key = (t.get? key).map f := by
  unfold map get?
  dsimp only
  induction t.entries with
  | nil => rfl
  | cons e rest ih =>
    rw [List.map_cons, List.lookup_cons, List.lookup_cons]
    cases key == e.1
    · exact ih
    · rfl

theorem map_insert (f : α → β) (t : Table α) (key : String) (a : α) :
    (t.insert key a).map f = (t.map f).insert key (f a) := by
  unfold map insert
  simp only [mk.injEq]
  induction t.entries with
  | nil => rfl
  | cons e rest ih =>
    simp only [put, List.map_cons]
    split
    · rfl
    · rw [List.map_cons, ih]

theorem map_eq_self {f : α → α} {t : Table α} (h : ∀ key a, t.get? key = some a → f a = a) :
    t.map f = t := by
  obtain ⟨entries, hnodup⟩ := t
  simp only [map, mk.injEq]
  refine (List.map_congr_left fun e he => ?_).trans (List.map_id entries)
  rw [h e.1 e.2 (get?_of_mem he)]
  rfl

end Table

/-! ## Moving places -/

/-- A way to move places: those from the start on, by the distance. -/
structure Move where
  start : Nat
  distance : Nat

namespace Move

variable {m : Move} {id : Nat}

/-- Where a place is moved to. -/
def apply (m : Move) (id : Nat) : Nat := if id < m.start then id else id + m.distance

theorem apply_of_lt (h : id < m.start) : m.apply id = id := if_pos h

theorem apply_of_le (h : m.start ≤ id) : m.apply id = id + m.distance :=
  if_neg (Nat.not_lt.2 h)

/-- The second cells have at the moved places what the first have, changed. What is made next in the
first is made next in the second. -/
structure Carries {α : Type} [Inhabited α] (m : Move) (f : α → α) (cells cells' : Array α) :
    Prop where
  start_le : m.start ≤ cells.size
  size : cells'.size = cells.size + m.distance
  cell : ∀ id, cells'.getD (m.apply id) default = f (cells.getD id default)

section

variable {α : Type} [Inhabited α] {f : α → α} {cells cells' : Array α}

theorem Carries.next (hc : m.Carries f cells cells') : m.apply cells.size = cells'.size := by
  rw [apply_of_le hc.start_le, hc.size]

theorem Carries.push (hc : m.Carries f cells cells') (cell : α) :
    m.Carries f (cells.push cell) (cells'.push (f cell)) where
  start_le := by
    rw [Array.size_push]
    exact Nat.le_succ_of_le hc.start_le
  size := by
    rw [Array.size_push, Array.size_push, hc.size, Nat.add_right_comm]
  cell id := by
    -- Only the next free place is moved to the next free place.
    have hnext : m.apply id = cells'.size ↔ id = cells.size := by
      have hstart := hc.start_le
      rw [hc.size, apply]
      split <;> omega
    rw [Heap.getD_push, Heap.getD_push, hc.cell]
    simp only [hnext]
    split <;> rfl

/-- Cells that the change leaves as they are are carried to themselves with more behind them. -/
theorem carries_append (hf : f default = default)
    (hcells : ∀ id < cells.size, f (cells.getD id default) = cells.getD id default)
    (more : Array α) : (Move.mk cells.size more.size).Carries f cells (cells ++ more) where
  start_le := Nat.le_refl _
  size := Array.size_append
  cell id := by
    by_cases hid : id < cells.size
    · rw [apply_of_lt hid, hcells id hid, Array.getD_eq_getD_getElem?, Array.getD_eq_getD_getElem?,
        Array.getElem?_append_left hid]
    · have hle := Nat.le_of_not_lt hid
      rw [apply_of_le hle, Heap.getD_of_size_le hle, hf]
      refine Heap.getD_of_size_le ?_
      rw [Array.size_append]
      exact Nat.add_le_add_right hle _

end

end Move

/-- A move of objects and a move of arrays. -/
structure Shift where
  objects : Move
  arrays : Move

namespace Shift

/-- The value at the moved place. -/
def value (ρ : Shift) : Value → Value
  | .object id => .object (ρ.objects.apply id)
  | .array id => .array (ρ.arrays.apply id)
  | v => v

variable {ρ : Shift} {h h' : Heap} {v : Value}

@[simp] theorem value_object (ρ : Shift) (id : ObjectId) :
    ρ.value (.object id) = .object (ρ.objects.apply id) := rfl

@[simp] theorem value_array (ρ : Shift) (id : ArrayId) :
    ρ.value (.array id) = .array (ρ.arrays.apply id) := rfl

@[simp] theorem type_value (ρ : Shift) (v : Value) : (ρ.value v).type = v.type := by
  cases v <;> rfl

@[simp] theorem number?_value (ρ : Shift) (v : Value) : (ρ.value v).number? = v.number? := by
  cases v <;> rfl

@[simp] theorem truth?_value (ρ : Shift) (v : Value) : (ρ.value v).truth? = v.truth? := by
  cases v <;> rfl

theorem value_of_place?_eq_none (hv : v.place? = none) : ρ.value v = v := by
  cases v with
  | object _ | array _ => cases hv
  | null | number _ | string _ | boolean _ | function _ | builtin _ => rfl

/-- The second heap has at the moved places what the first has there, moved, and what scopes hold
is not moved. -/
structure Carries (ρ : Shift) (h h' : Heap) : Prop where
  scopes : h'.scopes = h.scopes
  closures : h'.closures = h.closures
  objects : ρ.objects.Carries (·.map ρ.value) h.objects h'.objects
  arrays : ρ.arrays.Carries (·.map ρ.value) h.arrays h'.arrays
  bindings : ∀ id name b, (h.scope id).bindings.get? name = some b → ρ.value b.value = b.value

/-! ## Shifted heaps -/

/-- A heap is carried to itself if nothing is moved. -/
theorem carries_self (h : Heap) : Carries ⟨⟨0, 0⟩, ⟨0, 0⟩⟩ h h := by
  have hvalue (v : Value) : value ⟨⟨0, 0⟩, ⟨0, 0⟩⟩ v = v := by
    cases v <;> rfl
  refine ⟨rfl, rfl, ⟨Nat.zero_le _, rfl, fun id => ?_⟩, ⟨Nat.zero_le _, rfl, fun id => ?_⟩,
    fun _ _ b _ => hvalue b.value⟩
  · exact (Table.map_eq_self fun _ v _ => hvalue v).symm
  · exact (Array.map_congr_left fun v _ => hvalue v).trans (Array.map_id _) |>.symm

end Shift

namespace Heap

/-- The second heap is the first one with more objects and arrays. -/
def Makes (h h' : Heap) : Prop :=
  ∃ objects arrays, h' = { h with
    objects := h.objects ++ objects, arrays := h.arrays ++ arrays }

variable {h h' : Heap}

/-- A heap in which nothing is missing is carried to itself with more objects and arrays, and
nothing that it holds is moved. -/
theorem Closed.exists_shift (hh : h.Closed) (hm : h.Makes h') :
    ∃ ρ : Shift, ρ.Carries h h' ∧ ∀ v, h.Holds v → ρ.value v = v := by
  obtain ⟨objects, arrays, rfl⟩ := hm
  let ρ : Shift := ⟨⟨h.objects.size, objects.size⟩, ⟨h.arrays.size, arrays.size⟩⟩
  have hfix (v : Value) (hv : h.Holds v) : ρ.value v = v := by
    cases v with
    | object id => exact congrArg Value.object (Move.apply_of_lt (hv _ rfl))
    | array id => exact congrArg Value.array (Move.apply_of_lt (hv _ rfl))
    | null | number _ | string _ | boolean _ | function _ | builtin _ => rfl
  refine ⟨ρ, ⟨rfl, rfl, ?_, ?_, fun id name b hb => hfix _ (hh.binding hb)⟩, hfix⟩
  · refine Move.carries_append rfl (fun id hid => ?_) objects
    exact Table.map_eq_self fun key v hv => hfix v (hh.property hid hv)
  · refine Move.carries_append Array.map_empty (fun id hid => ?_) arrays
    exact (Array.map_congr_left fun v hv => hfix v (hh.element hid hv)).trans (Array.map_id _)

end Heap

namespace Shift.Carries

variable {ρ : Shift} {h h' : Heap} {v : Value}

theorem object (hc : ρ.Carries h h') (id : ObjectId) :
    h'.object (ρ.objects.apply id) = (h.object id).map ρ.value := hc.objects.cell id

theorem array (hc : ρ.Carries h h') (id : ArrayId) :
    h'.array (ρ.arrays.apply id) = (h.array id).map ρ.value := hc.arrays.cell id

theorem newObject (hc : ρ.Carries h h') (properties : Table Value) :
    (h'.newObject (properties.map ρ.value)).1 = ρ.objects.apply (h.newObject properties).1 ∧
      ρ.Carries (h.newObject properties).2 (h'.newObject (properties.map ρ.value)).2 :=
  ⟨hc.objects.next.symm, { hc with objects := hc.objects.push properties }⟩

theorem newArray (hc : ρ.Carries h h') (elements : Array Value) :
    (h'.newArray (elements.map ρ.value)).1 = ρ.arrays.apply (h.newArray elements).1 ∧
      ρ.Carries (h.newArray elements).2 (h'.newArray (elements.map ρ.value)).2 :=
  ⟨hc.arrays.next.symm, { hc with arrays := hc.arrays.push elements }⟩

theorem chainFrom (hc : ρ.Carries h h') (n : Nat) (id : ScopeId) :
    h'.chainFrom n id = h.chainFrom n id := by
  induction n generalizing id with
  | zero => rfl
  | succ n ih => simp only [Heap.chainFrom, Heap.scope, hc.scopes, ih]

theorem lookup (hc : ρ.Carries h h') (id : ScopeId) (name : String) :
    h'.lookup id name = h.lookup id name := by
  simp only [Heap.lookup, Heap.holder?, Heap.chain, Heap.binds, Heap.scope, hc.scopes, hc.chainFrom]

/-- A name has the same value in both heaps, and it is not moved. -/
theorem read (hc : ρ.Carries h h') (id : ScopeId) (name : String) :
    h'.read id name = h.read id name ∧ ∀ v, h.read id name = .ok v → ρ.value v = v := by
  refine ⟨by simp only [Heap.read, hc.lookup], fun v hv => ?_⟩
  obtain ⟨holder, b, -, hb, rfl⟩ := Heap.read_eq_ok hv
  exact hc.bindings holder name b hb

/-- A value and the moved one have the same text. -/
theorem displayAt (hc : ρ.Carries h h') (levels depth : Nat) (v : Value) :
    h'.displayAt levels depth (ρ.value v) = h.displayAt levels depth v := by
  -- A container may contain itself, so the induction is on the levels and not on the value.
  induction levels generalizing depth v with
  | zero => cases v <;> simp [Shift.value, Heap.displayAt, Heap.closure, hc.closures]
  | succ levels ih =>
    cases v with
    | object id =>
      simp only [value_object, Heap.displayAt, hc.object, Table.map, List.map_map,
        Function.comp_def, ih]
    | array id =>
      simp only [value_array, Heap.displayAt, hc.array, Array.toList_map, List.map_map,
        Function.comp_def, ih]
    | null | number _ | string _ | boolean _ | builtin _ => simp [Shift.value, Heap.displayAt]
    | function id => simp [Shift.value, Heap.displayAt, Heap.closure, hc.closures]

theorem display (hc : ρ.Carries h h') (v : Value) : h'.display (ρ.value v) = h.display v :=
  hc.displayAt Heap.displayLevels 0 v

end Shift.Carries

end DialectScript
