import DialectScript.Proofs.Calls
import Mathlib.Data.List.Induction

/-!
# Arrays as queues with two ends

**Theorem (`Builtin.double_ended`).** What was put into an array at one of its ends can be taken out
at that end again.

* *At the end.* `push` puts values behind the elements. As many calls of `pop` return them, the last
  one first, and leave the state as it was before the `push`.
* *At the front.* `unshift` puts values in front of the elements. As many calls of `shift` return
  them, the first one first.
* *In between.* Both return what `length` returns next. Of an array without elements, `pop` and
  `shift` return null, and the state stays as it is.
* *Other cells.* An operation changes nothing but the elements of the array that it is given first
  (`Heap.SameBut`). If it is given nothing, or something else first, it fails and changes nothing.

The values may be anything, the array among them: an operation moves values and does not look into
them. So each operation is one on the elements of its array, in a state that is left open otherwise
(`State.withArray`), and taking values out is an induction on these values, from the end or from the
front.
-/

namespace DialectScript

/-! ## States that differ in one array -/

namespace Heap

variable {h : Heap} {id : ArrayId} {f g : Array Value → Array Value}

/-- The heaps differ at most in the elements of one array. -/
structure SameBut (id : ArrayId) (h h' : Heap) : Prop where
  scopes : h'.scopes = h.scopes
  objects : h'.objects = h.objects
  closures : h'.closures = h.closures
  size : h'.arrays.size = h.arrays.size
  array : ∀ other, other ≠ id → h'.array other = h.array other

theorem sameBut_modifyArray (h : Heap) (id : ArrayId) (f : Array Value → Array Value) :
    h.SameBut id (h.modifyArray id f) where
  scopes := rfl
  objects := rfl
  closures := rfl
  size := Array.size_modify
  array other hne := by rw [array_modifyArray, if_neg fun h => hne h.1]

/-- A change of an array is known by what it makes of the elements. -/
theorem modifyArray_congr (hfg : f (h.array id) = g (h.array id)) :
    h.modifyArray id f = h.modifyArray id g := by
  have harrays : h.arrays.modify id f = h.arrays.modify id g := by
    refine Array.ext (by rw [Array.size_modify, Array.size_modify]) fun i hi hi' => ?_
    rw [Array.getElem_modify, Array.getElem_modify]
    split
    · next heq =>
      subst heq
      have hlt : id < h.arrays.size := by rwa [Array.size_modify] at hi
      rwa [array, Array.getD_eq_getD_getElem?, Array.getElem?_eq_getElem hlt] at hfg
    · rfl
  rw [modifyArray, modifyArray, harrays]

theorem modifyArray_id (h : Heap) (id : ArrayId) : h.modifyArray id (fun xs => xs) = h := by
  have harrays : h.arrays.modify id (fun xs => xs) = h.arrays := by
    refine Array.ext Array.size_modify fun i hi hi' => ?_
    rw [Array.getElem_modify, ite_self]
  rw [modifyArray, harrays]

theorem modifyArray_modifyArray (h : Heap) (id : ArrayId) (f g : Array Value → Array Value) :
    (h.modifyArray id f).modifyArray id g = h.modifyArray id fun xs => g (f xs) := by
  have harrays : (h.arrays.modify id f).modify id g = h.arrays.modify id fun xs => g (f xs) := by
    refine Array.ext (by simp only [Array.size_modify]) fun i hi hi' => ?_
    simp only [Array.getElem_modify]
    split <;> rfl
  simp only [modifyArray, harrays]

end Heap

namespace State

/-- The state with other elements in one of its arrays. -/
def withArray (s : State) (id : ArrayId) (xs : Array Value) : State :=
  { s with heap := s.heap.modifyArray id fun _ => xs }

theorem array_withArray {s : State} {id : ArrayId} (hid : id < s.heap.arrays.size)
    (xs : Array Value) : (s.withArray id xs).heap.array id = xs := by
  rw [withArray, Heap.array_modifyArray, if_pos ⟨rfl, hid⟩]

theorem withArray_withArray (s : State) (id : ArrayId) (xs ys : Array Value) :
    (s.withArray id xs).withArray id ys = s.withArray id ys := by
  rw [withArray, withArray, Heap.modifyArray_modifyArray]
  rfl

/-- Its own elements make no difference to an array. -/
theorem withArray_eq_self {s : State} {id : ArrayId} {xs : Array Value}
    (h : s.heap.array id = xs) : s.withArray id xs = s := by
  subst h
  have hheap : s.heap.modifyArray id (fun _ => s.heap.array id) =
      s.heap.modifyArray id fun xs => xs :=
    Heap.modifyArray_congr rfl
  rw [withArray, hheap, Heap.modifyArray_id]

theorem change_modifyArray (s : State) (id : ArrayId) (f : Array Value → Array Value) :
    Run.change (·.modifyArray id f) s = .ok () (s.withArray id (f (s.heap.array id))) := by
  have hheap : s.heap.modifyArray id f = s.heap.modifyArray id fun _ => f (s.heap.array id) :=
    Heap.modifyArray_congr rfl
  rw [Run.change, withArray, hheap]

end State

/-! ## One call -/

namespace Builtin

theorem push_call (s : State) (id : ArrayId) (vs : List Value) :
    push.call (.array id :: vs) s =
      lengthOf id (s.withArray id (s.heap.array id ++ vs)) := by
  rw [call]
  dsimp only [arrayArgument, List.tail_cons]
  rw [pure_bind, Run.bind_of_ok (s.change_modifyArray id (· ++ vs))]

theorem pop_call (s : State) (id : ArrayId) (rest : List Value) :
    pop.call (.array id :: rest) s =
      .ok ((s.heap.array id).back?.getD .null) (s.withArray id (s.heap.array id).pop) := by
  have hread : Run.fromHeap (fun h => (h.array id).back?) s = .ok (s.heap.array id).back? s := rfl
  rw [call]
  dsimp only [arrayArgument]
  rw [pure_bind, Run.bind_of_ok hread, Run.bind_of_ok (s.change_modifyArray id (·.pop))]
  rfl

theorem shift_call (s : State) (id : ArrayId) (rest : List Value) :
    shift.call (.array id :: rest) s =
      .ok ((s.heap.array id)[0]?.getD .null)
        (s.withArray id ((s.heap.array id).extract 1 (s.heap.array id).size)) := by
  have hread : Run.fromHeap (fun h => (h.array id)[0]?) s = .ok (s.heap.array id)[0]? s := rfl
  rw [call]
  dsimp only [arrayArgument]
  rw [pure_bind, Run.bind_of_ok hread,
    Run.bind_of_ok (s.change_modifyArray id fun xs => xs.extract 1 xs.size)]
  rfl

theorem unshift_call (s : State) (id : ArrayId) (vs : List Value) :
    unshift.call (.array id :: vs) s =
      lengthOf id (s.withArray id (vs.toArray ++ s.heap.array id)) := by
  rw [call]
  dsimp only [arrayArgument, List.tail_cons]
  rw [pure_bind, Run.bind_of_ok (s.change_modifyArray id (vs.toArray ++ ·))]

/-- The built-in functions that work on an array. -/
inductive OnArray : Builtin → Prop
  | length : OnArray .length
  | push : OnArray .push
  | pop : OnArray .pop
  | shift : OnArray .shift
  | unshift : OnArray .unshift

variable {b : Builtin} {key : String} {args : List Value}

theorem onArray_of_get? (h : arrayOperations.get? key = some (.builtin b)) : b.OnArray := by
  simp only [arrayOperations, List.foldl_cons, List.foldl_nil, Table.get?_insert] at h
  split_ifs at h <;> cases h
  · exact .unshift
  · exact .shift
  · exact .pop
  · exact .push
  · exact .length

/-- An operation changes the elements of its array, and nothing else. -/
theorem OnArray.call_array (hb : b.OnArray) (s : State) (id : ArrayId) (rest : List Value) :
    ∃ v xs, b.call (.array id :: rest) s = .ok v (s.withArray id xs) := by
  cases hb with
  | length => exact ⟨_, s.heap.array id, by rw [State.withArray_eq_self rfl]; rfl⟩
  | push => exact ⟨_, _, push_call s id rest⟩
  | pop => exact ⟨_, _, pop_call s id rest⟩
  | shift => exact ⟨_, _, shift_call s id rest⟩
  | unshift => exact ⟨_, _, unshift_call s id rest⟩

theorem arrayArgument_of_head? (h : ∀ id, args.head? ≠ some (.array id)) :
    b.arrayArgument args =
      Run.fault (.invalidArgument b (.noArray (args.head?.map Value.type))) := by
  match args with
  | [] => rfl
  | .array id :: _ => exact absurd rfl (h id)
  | .null :: _ | .boolean _ :: _ | .number _ :: _ | .string _ :: _ | .object _ :: _
  | .function _ :: _ | .builtin _ :: _ => rfl

/-- Without an array an operation fails before it does anything. -/
theorem OnArray.call_head? (hb : b.OnArray) (s : State)
    (h : ∀ id, args.head? ≠ some (.array id)) :
    b.call args s =
      .error (.fault (.ofCause (.invalidArgument b (.noArray (args.head?.map Value.type))))) s := by
  cases hb <;> rw [call, arrayArgument_of_head? h] <;> rfl

/-! ## Calls one after another -/

/-- Call a built-in function with one argument again and again, and list what the calls return. -/
def repeated (b : Builtin) (v : Value) : Nat → Run (List Value)
  | 0 => pure []
  | n + 1 => do
    let first ← b.call [v]
    let others ← b.repeated v n
    return first :: others

variable {s t : State} {id : ArrayId}

theorem repeated_succ {b : Builtin} {v first : Value} {others : List Value} {n : Nat} {u : State}
    (hfirst : b.call [v] s = .ok first t) (hothers : b.repeated v n t = .ok others u) :
    b.repeated v (n + 1) s = .ok (first :: others) u := by
  rw [repeated, Run.bind_of_ok hfirst, Run.bind_of_ok hothers]
  rfl

/-- Values at the end are taken out backwards. -/
theorem repeated_pop (hid : id < s.heap.arrays.size) (xs : Array Value) (vs : List Value) :
    pop.repeated (.array id) vs.length (s.withArray id (xs ++ vs)) =
      .ok vs.reverse (s.withArray id xs) := by
  induction vs using List.reverseRecOn with
  | nil => rw [Array.appendList_nil]; rfl
  | append_singleton vs v ih =>
    have hxs : xs ++ (vs ++ [v]) = (xs ++ vs).push v := by
      rw [← Array.toList_inj, Array.toList_appendList, Array.toList_push, Array.toList_appendList,
        List.append_assoc]
    have hpop := pop_call (s.withArray id (xs ++ (vs ++ [v]))) id []
    rw [State.array_withArray hid, State.withArray_withArray, hxs, Array.back?_push,
      Array.pop_push] at hpop
    rw [List.length_append, List.reverse_append, hxs]
    exact repeated_succ hpop ih

/-- Values at the front are taken out forwards. -/
theorem repeated_shift (hid : id < s.heap.arrays.size) (xs : Array Value) (vs : List Value) :
    shift.repeated (.array id) vs.length (s.withArray id (vs.toArray ++ xs)) =
      .ok vs (s.withArray id xs) := by
  induction vs with
  | nil => rw [Array.empty_append]; rfl
  | cons v vs ih =>
    have hfirst : ((v :: vs).toArray ++ xs)[0]? = some v := by
      rw [← Array.getElem?_toList, Array.toList_append]
      rfl
    have hrest : ((v :: vs).toArray ++ xs).extract 1 ((v :: vs).toArray ++ xs).size =
        vs.toArray ++ xs := by
      rw [← Array.toList_inj]
      simp [List.take_of_length_le]
    have hshift := shift_call (s.withArray id ((v :: vs).toArray ++ xs)) id []
    rw [State.array_withArray hid, State.withArray_withArray, hfirst, hrest] at hshift
    exact repeated_succ hshift ih

/-- Arrays are queues with two ends: what is put in at an end comes out there again, and everything
else is left alone. -/
theorem double_ended :
    (∀ (s : State) (id : ArrayId) (vs : List Value), id < s.heap.arrays.size →
      (∃ v t, push.call (.array id :: vs) s = .ok v t ∧
        t.heap.array id = s.heap.array id ++ vs ∧ length.call [.array id] t = .ok v t ∧
        pop.repeated (.array id) vs.length t = .ok vs.reverse s) ∧
      ∃ v t, unshift.call (.array id :: vs) s = .ok v t ∧
        t.heap.array id = vs.toArray ++ s.heap.array id ∧ length.call [.array id] t = .ok v t ∧
        shift.repeated (.array id) vs.length t = .ok vs s) ∧
    (∀ (s : State) (id : ArrayId) (rest : List Value), s.heap.array id = #[] →
      pop.call (.array id :: rest) s = .ok .null s ∧
        shift.call (.array id :: rest) s = .ok .null s) ∧
    ∀ key b, arrayOperations.get? key = some (.builtin b) → ∀ (s : State) (args : List Value),
      (∀ id rest, args = .array id :: rest →
        ∃ v heap, b.call args s = .ok v { s with heap } ∧ s.heap.SameBut id heap) ∧
      ((∀ id, args.head? ≠ some (.array id)) →
        let cause : FaultCause := .invalidArgument b (.noArray (args.head?.map Value.type))
        b.call args s = .error (.fault (.ofCause cause)) s) := by
  refine ⟨fun s id vs hid => ⟨?_, ?_⟩, fun s id rest hempty => ?_, ?_⟩
  · refine ⟨_, _, push_call s id vs, State.array_withArray hid _, rfl, ?_⟩
    rw [repeated_pop hid, State.withArray_eq_self rfl]
  · refine ⟨_, _, unshift_call s id vs, State.array_withArray hid _, rfl, ?_⟩
    rw [repeated_shift hid, State.withArray_eq_self rfl]
  · have hsame : s.withArray id #[] = s := State.withArray_eq_self hempty
    rw [pop_call, shift_call, hempty]
    exact ⟨congrArg _ hsame, congrArg _ hsame⟩
  · intro key b hkey s args
    have hb := onArray_of_get? hkey
    refine ⟨?_, hb.call_head? s⟩
    rintro id rest rfl
    obtain ⟨v, xs, hcall⟩ := hb.call_array s id rest
    exact ⟨v, _, hcall, s.heap.sameBut_modifyArray id _⟩

/-- An array is put into itself, beside another one that is empty. -/
theorem double_ended_itself :
    let s : State := ⟨⟨#[], #[], #[#[.string "x"], #[]], #[]⟩, .silent, .empty none⟩
    (∃ v t, push.call [.array 0, .array 0, .array 1] s = .ok v t ∧
        t.heap.array 0 = #[.string "x", .array 0, .array 1] ∧
        pop.repeated (.array 0) 2 t = .ok [.array 1, .array 0] s) ∧
      (∃ v t, unshift.call [.array 0, .array 0, .array 1] s = .ok v t ∧
        t.heap.array 0 = #[.array 0, .array 1, .string "x"] ∧
        shift.repeated (.array 0) 2 t = .ok [.array 0, .array 1] s) ∧
      pop.call [.array 1] s = .ok .null s ∧
      (∃ v heap, shift.call [.array 0, .null] s = .ok v { s with heap } ∧
        s.heap.SameBut 0 heap) ∧
      push.call [.null, .array 0] s =
        .error (.fault (.ofCause (.invalidArgument .push (.noArray (some .null))))) s := by
  intro s
  obtain ⟨hends, hempty, hcell⟩ := double_ended
  obtain ⟨⟨v, t, hpush, harray, -, hpop⟩, ⟨v', t', hunshift, harray', -, hshift⟩⟩ :=
    hends s 0 [.array 0, .array 1] (by decide)
  refine ⟨⟨v, t, hpush, harray, hpop⟩, ⟨v', t', hunshift, harray', hshift⟩,
    (hempty s 1 [] rfl).1, ?_, ?_⟩
  · exact (hcell "shift" .shift rfl s _).1 0 _ rfl
  · exact (hcell "push" .push rfl s [.null, .array 0]).2 nofun

end Builtin

end DialectScript
