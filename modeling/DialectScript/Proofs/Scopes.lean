import Mathlib
import DialectScript.Proofs.Steps

/-!
# Scopes last

**Theorem (`Heap.Reachable.scopes_last`).** In every heap that can be reached, walking outwards from
a scope passes no scope twice and comes to an end, and so does the search for a name. Throughout an
evaluation and whichever way it ends, every scope that was there keeps its parent and its names,
every binding keeps its mutability, and every constant keeps its value.

For the first part a scope is younger than the scope around it (`Heap.WellScoped`). The second part
(`Heap.Grows`) is shown for a single step of an evaluation: a declaration adds a name that the scope
did not have, and an assignment changes no constant.
-/

namespace DialectScript

/-- The mutability of a binding lasts, and if it is a constant, so does its value. -/
structure Binding.Lasts (b b' : Binding) : Prop where
  mutability : b'.mutability = b.mutability
  value : b.mutability = .constant → b'.value = b.value

namespace Binding.Lasts

variable {b b' b'' : Binding}

theorem refl (b : Binding) : b.Lasts b := ⟨rfl, fun _ => rfl⟩

theorem trans (h : b.Lasts b') (h' : b'.Lasts b'') : b.Lasts b'' where
  mutability := h'.mutability.trans h.mutability
  value hb := (h'.value (h.mutability.trans hb)).trans (h.value hb)

end Binding.Lasts

namespace Heap

variable {h h' h'' : Heap} {id : ScopeId} {ids : List ScopeId} {name : String}

/-! ## Walking outwards -/

/-- Walking outwards from a scope passes these scopes, up to one that stands alone. -/
inductive Outwards (h : Heap) : ScopeId → List ScopeId → Prop
  | last {id : ScopeId} : (h.scope id).parent = none → Outwards h id [id]
  | next {id parent : ScopeId} {ids : List ScopeId} : (h.scope id).parent = some parent →
      Outwards h parent ids → Outwards h id (id :: ids)

/-- The search for the scope that binds a name, from a scope outwards. -/
inductive Searches (h : Heap) (name : String) : ScopeId → Option ScopeId → Prop
  | found {id : ScopeId} : h.binds id name = true → Searches h name id (some id)
  | failed {id : ScopeId} : h.binds id name = false → (h.scope id).parent = none →
      Searches h name id none
  | next {id parent : ScopeId} {holder : Option ScopeId} : h.binds id name = false →
      (h.scope id).parent = some parent → Searches h name parent holder →
      Searches h name id holder

/-- The search finds the first scope on the way that binds the name. -/
theorem Outwards.searches (hids : h.Outwards id ids) (name : String) :
    h.Searches name id (ids.find? fun s => h.binds s name) := by
  induction hids with
  | @last id hparent =>
    cases hb : h.binds id name with
    | true =>
      simp only [List.find?_cons, hb]
      exact .found hb
    | false =>
      simp only [List.find?_cons, hb, List.find?_nil]
      exact .failed hb hparent
  | @next id parent ids hparent _ ih =>
    cases hb : h.binds id name with
    | true =>
      simp only [List.find?_cons, hb]
      exact .found hb
    | false =>
      simp only [List.find?_cons, hb]
      exact .next hb hparent ih

namespace WellScoped

/-- A walk of more steps than there are scopes older than the first comes to its end. -/
theorem outwards_chainFrom (hh : h.WellScoped) {n : Nat} (hid : id < n) :
    h.Outwards id (h.chainFrom n id) := by
  induction n generalizing id with
  | zero => exact absurd hid (Nat.not_lt_zero id)
  | succ n ih =>
    rw [chainFrom]
    cases hparent : (h.scope id).parent with
    | none => exact .last hparent
    | some parent =>
      have hlt : parent < id := hh.parent_lt id parent hparent
      exact .next hparent (ih (Nat.lt_of_lt_of_le hlt (Nat.le_of_lt_succ hid)))

/-- The walk outwards goes to ever older scopes. -/
theorem le_of_mem_outwards (hh : h.WellScoped) (hids : h.Outwards id ids) {i : ScopeId}
    (hi : i ∈ ids) : i ≤ id := by
  induction hids with
  | last _ => exact Nat.le_of_eq (List.mem_singleton.1 hi)
  | next hparent _ ih =>
    rcases List.mem_cons.1 hi with rfl | hi
    · exact Nat.le_refl _
    · exact Nat.le_of_lt (Nat.lt_of_le_of_lt (ih hi) (hh.parent_lt _ _ hparent))

theorem nodup_outwards (hh : h.WellScoped) (hids : h.Outwards id ids) : ids.Nodup := by
  induction hids with
  | last _ => exact List.nodup_cons.2 ⟨List.not_mem_nil, .nil⟩
  | next hparent hrest ih =>
    refine List.nodup_cons.2 ⟨fun hi => ?_, ih⟩
    have hle := hh.le_of_mem_outwards hrest hi
    exact absurd (hh.parent_lt _ _ hparent) (Nat.not_lt.2 hle)

end WellScoped

/-! ## What lasts -/

/-- Every scope of the first heap is in the second, with its parent and with its bindings. -/
structure Grows (h h' : Heap) : Prop where
  size : h.scopes.size ≤ h'.scopes.size
  parent : ∀ id < h.scopes.size, (h'.scope id).parent = (h.scope id).parent
  binding : ∀ id < h.scopes.size, ∀ name b, (h.scope id).bindings.get? name = some b →
    ∃ b', (h'.scope id).bindings.get? name = some b' ∧ b.Lasts b'

namespace Grows

theorem of_scopes_eq (heq : h'.scopes = h.scopes) : h.Grows h' where
  size := Nat.le_of_eq (congrArg Array.size heq.symm)
  parent id _ := by rw [scope, scope, heq]
  binding id _ name b hb := ⟨b, by rwa [scope, heq], .refl b⟩

theorem refl (h : Heap) : h.Grows h := of_scopes_eq rfl

theorem trans (hg : h.Grows h') (hg' : h'.Grows h'') : h.Grows h'' where
  size := Nat.le_trans hg.size hg'.size
  parent id hid := by
    rw [hg'.parent id (Nat.lt_of_lt_of_le hid hg.size), hg.parent id hid]
  binding id hid name b hb := by
    obtain ⟨b', hb', hlasts⟩ := hg.binding id hid name b hb
    obtain ⟨b'', hb'', hlasts'⟩ := hg'.binding id (Nat.lt_of_lt_of_le hid hg.size) name b' hb'
    exact ⟨b'', hb'', hlasts.trans hlasts'⟩

theorem newScope (h : Heap) (s : Scope) : h.Grows (h.newScope s).2 where
  size := by
    rw [size_scopes_newScope]
    exact Nat.le_succ _
  parent id hid := by rw [scope_newScope, if_neg (Nat.ne_of_lt hid)]
  binding id hid name b hb := by
    rw [scope_newScope, if_neg (Nat.ne_of_lt hid)]
    exact ⟨b, hb, .refl b⟩

/-- A scope may take a binding that keeps up the one that it had of the same name, if any. -/
theorem insert {new : Binding}
    (hnew : ∀ old, (h.scope id).bindings.get? name = some old → old.Lasts new) :
    h.Grows (h.modifyBindings id (·.insert name new)) where
  size := Nat.le_of_eq (size_scopes_modifyBindings h id _).symm
  parent other _ := by
    rw [scope_modifyBindings]
    split
    · next hother => rw [hother.1]
    · rfl
  binding other _ n b hb := by
    rw [scope_modifyBindings]
    split
    · next hother =>
      rw [hother.1] at hb
      rw [Table.get?_insert]
      split
      · next hn =>
        rw [hn] at hb
        exact ⟨new, rfl, hnew b hb⟩
      · exact ⟨b, hb, .refl b⟩
    · exact ⟨b, hb, .refl b⟩

end Grows

/-- No step of an evaluation takes anything from a scope or changes a constant. -/
theorem Step.grows (h₁ : Step h h') : h.Grows h' := by
  cases h₁ with
  | @newScope s _ => exact .newScope h s
  | newObject | newArray | newClosure | setProperty | modifyArray => exact .of_scopes_eq rfl
  | @declare _ id name b hd =>
    obtain ⟨hfree, rfl⟩ := declare_eq_ok hd
    refine .insert fun old hold => ?_
    rw [binds, Table.contains, hold] at hfree
    cases hfree
  | @assign _ id name v ha =>
    obtain ⟨holder, value, -, hmutable, rfl⟩ := assign_eq_ok ha
    refine .insert fun old hold => ?_
    rw [hmutable] at hold
    cases hold
    exact ⟨rfl, fun hconstant => by cases hconstant⟩

theorem Steps.grows (hs : h.Steps h') : h.Grows h' := by
  induction hs with
  | refl => exact .refl h
  | tail _ hstep ih => exact ih.trans hstep.grows

/-! ## The built-ins -/

theorem steps_provide (h : Heap) (id : ScopeId) (name : String) (v : Value) :
    h.Steps (h.provide id name v) := by
  unfold provide
  split
  · next hd => exact .single (.declare hd)
  · exact .refl

theorem steps_install (h : Heap) (id : ScopeId) : h.Steps (h.install id) := by
  unfold install
  refine List.foldlRecOn _ _ (.single (.newObject Builtin.arrayOperations)) ?_
  exact fun h₀ hs entry _ => hs.trans (steps_provide h₀ id entry.1 entry.2)

/-- The built-ins go into a new scope that stands alone. -/
theorem global_steps (h : Heap) :
    h.Steps h.global.2 ∧ h.global.1 < h.global.2.scopes.size := by
  have hroot : Step h h.root.2 := @Step.newScope h ⟨.empty, none⟩ nofun
  have hinstall := steps_install h.root.2 h.root.1
  simp only [global]
  refine ⟨.head hroot hinstall, Nat.lt_of_lt_of_le ?_ hinstall.scopes_le⟩
  rw [root, size_scopes_newScope]
  exact Nat.lt_succ_self _

/-! ## The theorem -/

/-- Walks outwards end, and throughout an evaluation scopes and constants last. -/
theorem Reachable.scopes_last {s : State} (hs : s.heap.Reachable) :
    (∀ id < s.heap.scopes.size,
      s.heap.Outwards id (s.heap.chain id) ∧ (s.heap.chain id).Nodup ∧
        ∀ name, s.heap.Searches name id (s.heap.holder? id name)) ∧
      ∀ fuel, ∀ scope < s.heap.scopes.size, ∀ x, EvaluationIn fuel scope x →
        s.heap.Grows (x.final s).heap ∧
          ∀ t, Run.Visits scope x s t → t.heap.Reachable ∧ s.heap.Grows t.heap := by
  have hwell := hs.wellScoped
  refine ⟨fun id hid => ?_, fun fuel scope hscope x hx => ⟨?_, fun t ht => ?_⟩⟩
  · have hids : s.heap.Outwards id (s.heap.chain id) := hwell.outwards_chainFrom hid
    exact ⟨hids, hwell.nodup_outwards hids, hids.searches⟩
  · exact (hx.scoped.steps hwell hscope).grows
  · have hsteps := ht.steps hwell hscope
    exact ⟨hs.trans hsteps, hsteps.grows⟩

/-- The search for the constant `null` ends in the global scope, and after a failed assignment to it
the value is what it was. -/
theorem Reachable.scopes_last_null :
    let s : State := ⟨Heap.empty.global.2, default, .empty none⟩
    let x := (Expr.assign (.identifier "null") (.string "a")).eval 3 0
    x s = .error (.fault (.ofCause (.assignToConstant "null"))) (x.final s) ∧
      s.heap.Outwards 0 [0] ∧ s.heap.Searches "null" 0 (some 0) ∧
      ∃ b, ((x.final s).heap.scope 0).bindings.get? "null" = some b ∧ b.value = .null := by
  intro s x
  have hs : s.heap.Reachable := (global_steps .empty).1
  obtain ⟨hwalks, hlast⟩ := scopes_last hs
  have h0 : 0 < s.heap.scopes.size := (global_steps .empty).2
  obtain ⟨houtwards, -, hsearches⟩ := hwalks 0 h0
  have hgrows := (hlast 3 0 h0 x (.expression _)).1
  obtain ⟨b, hb, hlasts⟩ := hgrows.binding 0 h0 "null" ⟨.null, .constant⟩ (by subst s; cbv)
  have hchain : s.heap.chain 0 = [0] := by subst s; cbv
  have hholder : s.heap.holder? 0 "null" = some 0 := by subst s; cbv
  refine ⟨by subst x s; cbv, hchain ▸ houtwards, hholder ▸ hsearches "null", b, hb, ?_⟩
  exact hlasts.value rfl

end Heap

/-! ## Sessions -/

namespace Session

/-- A session that has come about: its heap can be reached, and its scope is there. -/
structure Sound (s : Session) : Prop where
  reachable : s.state.heap.Reachable
  scope_lt : s.scope < s.state.heap.scopes.size

theorem sound_start (options : Options) (output : Output) : (start options output).Sound where
  reachable := (Heap.global_steps .empty).1
  scope_lt := (Heap.global_steps .empty).2

theorem Sound.runProgram {s : Session} (hs : s.Sound) (fuel : Nat) (program : Program) :
    (s.runProgram fuel program).2.Sound := by
  have hx : EvaluationIn fuel s.scope (program.run fuel s.scope) := .program program
  have hsteps := hx.scoped.steps hs.reachable.wellScoped hs.scope_lt
  rw [s.runProgram_snd fuel program]
  exact ⟨hs.reachable.trans hsteps, Nat.lt_of_lt_of_le hs.scope_lt hsteps.scopes_le⟩

theorem Sound.runSource {s : Session} (hs : s.Sound) (fuel : Nat) (source : String) :
    (s.runSource fuel source).2.Sound := by
  rw [Session.runSource]
  cases Program.ofSource s.dialect source with
  | ok program => exact hs.runProgram fuel program
  | error e => exact hs

end Session

end DialectScript
