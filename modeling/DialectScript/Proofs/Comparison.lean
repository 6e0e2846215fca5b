import DialectScript.Proofs.Numbers
import DialectScript.Value.Equality
import Mathlib.Data.List.Perm.Subperm

/-!
# Equality of values is a partial equivalence

**Theorem (`Heap.equalAt_partial_equivalence`).** On every heap, containers within themselves
included, and with any number of levels left to open, the comparison of values is symmetric and
transitive, and a container or a function is equal to itself. It ends on every heap, since each
level of containers takes one from that number; a comparison that starts some levels down has as
many less.

A comparison looks at the two values alone and hands on what they hold (`Value.Agree`), so it is
enough that symmetry and transitivity pass from what containers hold to the containers. For this
the contents of two containers are compared name by name, or index by index, with `Option.Rel`: the
names of one object are those of the other as soon as there are as many and each of the first is
among the second (`Table.forall_rel_iff`).
-/

namespace DialectScript

/-! ## Contents of containers -/

section

variable {α β : Type} {r : α → β → Prop}

/-- Two tables have related entries under the same names if there are as many in both and each name
of the first is in the second, with a related entry. -/
theorem Table.forall_rel_iff (t : Table α) (u : Table β) :
    (∀ key, Option.Rel r (t.get? key) (u.get? key)) ↔
      t.size = u.size ∧ ∀ e ∈ t.entries, ∃ b, u.get? e.1 = some b ∧ r e.2 b := by
  have hmem {γ : Type} (t : Table γ) (key : String) : key ∈ t.keys ↔ (t.get? key).isSome = true :=
    (t.contains_iff_mem_keys key).symm
  have hsize {γ : Type} (t : Table γ) : t.keys.length = t.size := List.length_map _
  constructor
  · intro h
    have hkeys : t.keys.Perm u.keys := by
      refine (List.perm_ext_iff_of_nodup t.nodup u.nodup).2 fun key => ?_
      rw [← keys, ← keys, hmem, hmem]
      have hkey := h key
      generalize t.get? key = first, u.get? key = second at hkey
      cases hkey <;> simp
    refine ⟨by rw [← hsize, ← hsize, hkeys.length_eq], fun e he => ?_⟩
    have hkey := h e.1
    rw [get?_of_mem he] at hkey
    generalize hb : u.get? e.1 = second at hkey
    cases hkey with
    | some hr => exact ⟨_, rfl, hr⟩
  · rintro ⟨hlen, h⟩ key
    have hsubset : t.keys ⊆ u.keys := fun key hkey => by
      obtain ⟨e, he, rfl⟩ := List.mem_map.1 hkey
      obtain ⟨b, hb, -⟩ := h e he
      rw [hmem, hb]
      rfl
    -- There are as many names in both and none twice, so the second table has no others.
    have hle : u.keys.length ≤ t.keys.length := by rw [hsize, hsize, hlen]
    have hkeys := (List.subperm_of_subset t.nodup hsubset).perm_of_length_le hle
    by_cases hkey : key ∈ t.keys
    · obtain ⟨e, he, rfl⟩ := List.mem_map.1 hkey
      obtain ⟨b, hb, hr⟩ := h e he
      rw [get?_of_mem he, hb]
      exact .some hr
    · have hother : key ∉ u.keys := fun hu => hkey (hkeys.mem_iff.2 hu)
      rw [hmem, Option.not_isSome_iff_eq_none] at hkey hother
      rw [hkey, hother]
      exact .none

/-- Two arrays have related elements at the same indices if they are of one length and their
elements are related in pairs. -/
theorem forall_rel_getElem?_iff (xs : Array α) (ys : Array β) :
    (∀ i : Nat, Option.Rel r xs[i]? ys[i]?) ↔
      xs.size = ys.size ∧ ∀ p ∈ xs.toList.zip ys.toList, r p.1 p.2 := by
  obtain ⟨xs⟩ := xs
  obtain ⟨ys⟩ := ys
  simp only [List.getElem?_toArray, List.size_toArray]
  induction xs generalizing ys with
  | nil =>
    cases ys with
    | nil => simp
    | cons y ys =>
      refine iff_of_false (fun h => ?_) (by simp)
      cases h 0
  | cons x xs ih =>
    cases ys with
    | nil =>
      refine iff_of_false (fun h => ?_) (by simp)
      cases h 0
    | cons y ys =>
      have hrest := ih ys
      simp only [List.length_cons, Nat.add_right_cancel_iff, List.zip_cons_cons,
        List.forall_mem_cons]
      constructor
      · intro h
        obtain ⟨hlen, hpairs⟩ := hrest.1 fun i => h (i + 1)
        cases h 0 with
        | some hxy => exact ⟨hlen, hxy, hpairs⟩
      · rintro ⟨hlen, hxy, hpairs⟩ i
        cases i with
        | zero => exact .some hxy
        | succ i => exact hrest.2 ⟨hlen, hpairs⟩ i

end

/-! ## One step of a comparison -/

/-- Two values are equal, for some equality of objects and of arrays. -/
inductive Value.Agree (objects : ObjectId → ObjectId → Prop) (arrays : ArrayId → ArrayId → Prop) :
    Value → Value → Prop
  | null : Agree objects arrays .null .null
  | number {x y : Float} : (x == y) = true → Agree objects arrays (.number x) (.number y)
  | string (text : String) : Agree objects arrays (.string text) (.string text)
  | boolean (b : Bool) : Agree objects arrays (.boolean b) (.boolean b)
  | object {i j : ObjectId} : objects i j → Agree objects arrays (.object i) (.object j)
  | array {i j : ArrayId} : arrays i j → Agree objects arrays (.array i) (.array j)
  | function (id : FunctionId) : Agree objects arrays (.function id) (.function id)
  | builtin {a b : Builtin} : a.name = b.name → Agree objects arrays (.builtin a) (.builtin b)

theorem Builtin.name_injective {a b : Builtin} (h : a.name = b.name) : a = b := by
  cases a <;> cases b <;> simp_all [Builtin.name]

namespace Heap

section

variable (h : Heap) (levels : Nat) {i j : Nat}

/-- Two objects are one and the same, or a level may be opened and they have equal properties. -/
def EqualObjects (i j : ObjectId) : Prop :=
  i = j ∨ ∃ below, levels = below + 1 ∧ ∀ key,
    Option.Rel (fun v w => h.equalAt below v w = true) ((h.object i).get? key)
      ((h.object j).get? key)

/-- Two arrays are one and the same, or a level may be opened and they have equal elements. -/
def EqualArrays (i j : ArrayId) : Prop :=
  i = j ∨ ∃ below, levels = below + 1 ∧ ∀ k : Nat,
    Option.Rel (fun v w => h.equalAt below v w = true) (h.array i)[k]? (h.array j)[k]?

theorem equalObjects_zero_iff : h.EqualObjects 0 i j ↔ i = j := or_iff_left nofun

theorem equalArrays_zero_iff : h.EqualArrays 0 i j ↔ i = j := or_iff_left nofun

theorem equalObjects_succ_iff :
    h.EqualObjects (levels + 1) i j ↔ i = j ∨ ∀ key,
      Option.Rel (fun v w => h.equalAt levels v w = true) ((h.object i).get? key)
        ((h.object j).get? key) := by
  simp only [EqualObjects, Nat.add_right_cancel_iff, exists_eq_left']

theorem equalArrays_succ_iff :
    h.EqualArrays (levels + 1) i j ↔ i = j ∨ ∀ k : Nat,
      Option.Rel (fun v w => h.equalAt levels v w = true) (h.array i)[k]? (h.array j)[k]? := by
  simp only [EqualArrays, Nat.add_right_cancel_iff, exists_eq_left']

theorem equalAt_object_iff :
    h.equalAt levels (.object i) (.object j) = true ↔ h.EqualObjects levels i j := by
  cases levels with
  | zero => rw [equalAt, beq_iff_eq, equalObjects_zero_iff]
  | succ levels =>
    rw [equalObjects_succ_iff, Table.forall_rel_iff, equalAt, Bool.or_eq_true, beq_iff_eq,
      Bool.and_eq_true, beq_iff_eq, List.all_eq_true]
    refine or_congr_right (and_congr_right fun _ => forall₂_congr fun e _ => ?_)
    cases hw : (h.object j).get? e.1 <;> simp [hw]

theorem equalAt_array_iff :
    h.equalAt levels (.array i) (.array j) = true ↔ h.EqualArrays levels i j := by
  cases levels with
  | zero => rw [equalAt, beq_iff_eq, equalArrays_zero_iff]
  | succ levels =>
    rw [equalArrays_succ_iff, forall_rel_getElem?_iff, equalAt, Bool.or_eq_true, beq_iff_eq,
      Bool.and_eq_true, beq_iff_eq, List.all_eq_true]

/-- A comparison takes one step and compares what the containers hold with one level less. -/
theorem equalAt_iff (v w : Value) :
    h.equalAt levels v w = true ↔ v.Agree (h.EqualObjects levels) (h.EqualArrays levels) w := by
  constructor
  · intro heq
    cases v <;> cases w
    case object.object => exact .object ((h.equalAt_object_iff levels).1 heq)
    case array.array => exact .array ((h.equalAt_array_iff levels).1 heq)
    all_goals simp only [equalAt, beq_iff_eq, reduceCtorEq] at heq
    case null.null => exact .null
    case number.number => exact .number heq
    case string.string => exact heq ▸ .string _
    case boolean.boolean => exact heq ▸ .boolean _
    case function.function => exact heq ▸ .function _
    case builtin.builtin => exact heq ▸ .builtin rfl
  · intro hagree
    cases hagree with
    | null => rw [equalAt]
    | number hxy => rwa [equalAt]
    | object hij => exact (h.equalAt_object_iff levels).2 hij
    | array hij => exact (h.equalAt_array_iff levels).2 hij
    | string _ | boolean _ | function _ => simp only [equalAt, beq_self_eq_true]
    | builtin hname => simp only [equalAt, Builtin.name_injective hname, beq_self_eq_true]

end

end Heap

/-! ## Partial equivalences -/

/-- A relation that is symmetric and transitive. -/
structure PartialEquivalence {α : Type} (r : α → α → Prop) : Prop where
  symm {a b : α} : r a b → r b a
  trans {a b c : α} : r a b → r b c → r a c

namespace PartialEquivalence

section

variable {α ι κ : Type} {r : α → α → Prop}

theorem eq : PartialEquivalence (Eq : α → α → Prop) := ⟨Eq.symm, Eq.trans⟩

theorem congr {r' : α → α → Prop} (hr : PartialEquivalence r) (h : ∀ a b, r' a b ↔ r a b) :
    PartialEquivalence r' where
  symm hab := (h _ _).2 (hr.symm ((h _ _).1 hab))
  trans hab hbc := (h _ _).2 (hr.trans ((h _ _).1 hab) ((h _ _).1 hbc))

theorem option (hr : PartialEquivalence r) : PartialEquivalence (Option.Rel r) where
  symm h := by
    cases h with
    | none => exact .none
    | some hab => exact .some (hr.symm hab)
  trans h h' := by
    cases h with
    | none => exact h'
    | some hab =>
      cases h' with
      | some hbc => exact .some (hr.trans hab hbc)

/-- Containers of which each holds something under some keys, by what they hold. -/
theorem contents (hr : PartialEquivalence r) (content : ι → κ → Option α) :
    PartialEquivalence fun i j => ∀ key, Option.Rel r (content i key) (content j key) where
  symm h key := hr.option.symm (h key)
  trans h h' key := hr.option.trans (h key) (h' key)

theorem eq_or (hr : PartialEquivalence r) : PartialEquivalence fun a b => a = b ∨ r a b where
  symm h := h.imp Eq.symm hr.symm
  trans h h' := by
    rcases h with rfl | h
    · exact h'
    · rcases h' with rfl | h'
      · exact .inr h
      · exact .inr (hr.trans h h')

end

theorem agree {objects : ObjectId → ObjectId → Prop} {arrays : ArrayId → ArrayId → Prop}
    (ho : PartialEquivalence objects) (ha : PartialEquivalence arrays) :
    PartialEquivalence (Value.Agree objects arrays) where
  symm h := by
    cases h with
    | null => exact .null
    | number hxy => exact .number (Binary.beq_symm hxy)
    | string text => exact .string text
    | boolean b => exact .boolean b
    | object hij => exact .object (ho.symm hij)
    | array hij => exact .array (ha.symm hij)
    | function id => exact .function id
    | builtin hab => exact .builtin hab.symm
  trans h h' := by
    cases h with
    | null | string _ | boolean _ | function _ => exact h'
    | number hxy => cases h' with | number hyz => exact .number (Binary.beq_trans hxy hyz)
    | object hij => cases h' with | object hjk => exact .object (ho.trans hij hjk)
    | array hij => cases h' with | array hjk => exact .array (ha.trans hij hjk)
    | builtin hab => cases h' with | builtin hbc => exact .builtin (hab.trans hbc)

end PartialEquivalence

namespace Heap

variable (h : Heap) (levels : Nat)

theorem partialEquivalence_equalAt : PartialEquivalence fun v w => h.equalAt levels v w = true := by
  induction levels with
  | zero =>
    have hobjects := PartialEquivalence.eq.congr
      fun i j => h.equalObjects_zero_iff (i := i) (j := j)
    have harrays := PartialEquivalence.eq.congr
      fun i j => h.equalArrays_zero_iff (i := i) (j := j)
    exact (hobjects.agree harrays).congr (h.equalAt_iff 0)
  | succ levels ih =>
    have hobjects := (ih.contents fun i => (h.object i).get?).eq_or.congr
      fun i j => h.equalObjects_succ_iff levels
    have harrays := (ih.contents fun i (k : Nat) => (h.array i)[k]?).eq_or.congr
      fun i j => h.equalArrays_succ_iff levels
    exact (hobjects.agree harrays).congr (h.equalAt_iff (levels + 1))

/-- The comparison of values is symmetric and transitive, and containers and functions are equal to
themselves. -/
theorem equalAt_partial_equivalence :
    (∀ v w, h.equalAt levels v w = h.equalAt levels w v) ∧
      (∀ u v w, h.equalAt levels u v = true → h.equalAt levels v w = true →
        h.equalAt levels u w = true) ∧
      (∀ id, h.equalAt levels (.object id) (.object id) = true) ∧
      (∀ id, h.equalAt levels (.array id) (.array id) = true) ∧
      ∀ id, h.equalAt levels (.function id) (.function id) = true := by
  have hper := h.partialEquivalence_equalAt levels
  refine ⟨fun v w => Bool.eq_iff_iff.2 ⟨hper.symm, hper.symm⟩, fun u v w => hper.trans,
    fun id => ?_, fun id => ?_, fun id => ?_⟩
  · exact (h.equalAt_object_iff levels).2 (.inl rfl)
  · exact (h.equalAt_array_iff levels).2 (.inl rfl)
  · exact (h.equalAt_iff levels _ _).2 (.function id)

/-- An array that holds itself and what is no number, under one property of three objects whose
other properties are zeros of either sign. -/
theorem equalAt_partial_equivalence_cyclic :
    let xs : Value := .array 0
    let t : Table Value := (Table.empty.insert "xs" xs).insert "x" (.number 0.0)
    let t' : Table Value := (Table.empty.insert "x" (.number (-0.0))).insert "xs" xs
    let h : Heap := ⟨#[], #[t, t', t], #[#[.number (0.0 / 0.0), xs]], #[]⟩
    h.equal (.object 0) (.object 1) = true ∧ h.equal (.object 1) (.object 2) = true ∧
      h.equal (.object 1) (.object 0) = true ∧ h.equal (.object 0) (.object 2) = true ∧
      h.equal xs xs = true := by
  intro xs t t' h
  obtain ⟨hsymm, htrans, -, harray, -⟩ := h.equalAt_partial_equivalence equalLevels
  have hfirst : h.equal (.object 0) (.object 1) = true := by decide +kernel
  have hsecond : h.equal (.object 1) (.object 2) = true := by decide +kernel
  exact ⟨hfirst, hsecond, (hsymm _ _).trans hfirst, htrans _ _ _ hfirst hsecond, harray 0⟩

end Heap

end DialectScript
