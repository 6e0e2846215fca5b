import Mathlib
import DialectScript.Proofs.Scopes

/-!
# Reading after writing

**Theorem (`Heap.Chained.read_after_write`).** In a heap whose scopes lead outwards in finitely many
steps, whatever their order and however many share an outer one:

* an assignment fails if the name is not bound, or bound to a constant, and changes nothing then;
  otherwise the new value is read from exactly those scopes from which the search for the name ended
  in the same scope;
* a declaration fails if the scope itself binds the name, and changes nothing then; otherwise the
  new binding is read from exactly those scopes from which the declaring one is seen (`Heap.Sees`):
  no scope that binds the name stands before it.

Everything else is read as before.

What a name means is said by the search (`Heap.Searches`), one scope at a time. The walk that is cut
off at the number of scopes is the whole way outwards, since no scope comes twice on it, so what is
looked up is what the search finds. A write leaves every parent in place and changes one binding
(`Heap.Rebinds`); it remains to see which searches it redirects.
-/

namespace DialectScript

namespace Heap

variable {h h' : Heap} {id target : ScopeId} {ids ids' : List ScopeId} {name : String}
  {b : Binding} {found found' : Option ScopeId}

/-! ## The way outwards -/

theorem Outwards.unique (hids : h.Outwards id ids) (hids' : h.Outwards id ids') : ids' = ids := by
  induction hids generalizing ids' with
  | last hparent =>
    cases hids' with
    | last _ => rfl
    | next hparent' _ => simp [hparent] at hparent'
  | next hparent _ ih =>
    cases hids' with
    | last hparent' => simp [hparent] at hparent'
    | next hparent' hrest =>
      obtain rfl := Option.some.inj (hparent'.symm.trans hparent)
      rw [ih hrest]

/-- From a scope on the way, the rest of the way is no longer. -/
theorem Outwards.exists_rest (hids : h.Outwards id ids) {i : ScopeId} (hi : i ∈ ids) :
    ∃ rest, h.Outwards i rest ∧ rest.length ≤ ids.length := by
  induction hids with
  | last hparent =>
    rw [List.mem_singleton.1 hi]
    exact ⟨_, .last hparent, Nat.le_refl _⟩
  | next hparent hrest ih =>
    rcases List.mem_cons.1 hi with rfl | hi
    · exact ⟨_, .next hparent hrest, Nat.le_refl _⟩
    · obtain ⟨rest, hi, hle⟩ := ih hi
      exact ⟨rest, hi, Nat.le_succ_of_le hle⟩

/-- A scope that came again would lead to itself for ever. -/
theorem Outwards.nodup (hids : h.Outwards id ids) : ids.Nodup := by
  induction hids with
  | last _ => exact List.nodup_singleton _
  | next hparent hrest ih =>
    refine List.nodup_cons.2 ⟨fun hid => ?_, ih⟩
    obtain ⟨again, hagain, hle⟩ := hrest.exists_rest hid
    rw [(Outwards.next hparent hrest).unique hagain] at hle
    exact absurd hle (Nat.not_succ_le_self _)

/-- The walk that is allowed enough steps is the whole way. -/
theorem Outwards.chainFrom_eq (hids : h.Outwards id ids) {n : Nat} (hn : ids.length ≤ n) :
    h.chainFrom n id = ids := by
  induction hids generalizing n with
  | last hparent =>
    obtain ⟨n, rfl⟩ := Nat.exists_eq_add_of_le' hn
    simp [chainFrom, hparent]
  | next hparent _ ih =>
    obtain ⟨n, rfl⟩ := Nat.exists_eq_add_of_le' (Nat.le_trans (Nat.le_add_left 1 _) hn)
    simp [chainFrom, hparent, ih (Nat.le_of_succ_le_succ hn)]

/-- Every scope leads outwards, over scopes that are there, to one that stands alone. -/
structure Chained (h : Heap) : Prop where
  parent_lt : ∀ id < h.scopes.size, ∀ parent, (h.scope id).parent = some parent →
    parent < h.scopes.size
  outwards : ∀ id < h.scopes.size, ∃ ids, h.Outwards id ids

/-- In particular, a heap can be reached only if it is chained. -/
theorem WellScoped.chained (hh : h.WellScoped) : h.Chained where
  parent_lt id hid parent hparent := Nat.lt_trans (hh.parent_lt id parent hparent) hid
  outwards id _ := ⟨_, hh.outwards_chainFrom (Nat.lt_succ_self id)⟩

namespace Chained

theorem lt_of_mem (hh : h.Chained) (hid : id < h.scopes.size) (hids : h.Outwards id ids)
    {i : ScopeId} (hi : i ∈ ids) : i < h.scopes.size := by
  induction hids with
  | last _ => rwa [List.mem_singleton.1 hi]
  | next hparent _ ih =>
    rcases List.mem_cons.1 hi with rfl | hi
    · exact hid
    · exact ih (hh.parent_lt _ hid _ hparent) hi

/-- There are enough scopes for the whole way. -/
theorem outwards_chain (hh : h.Chained) (hid : id < h.scopes.size) :
    h.Outwards id (h.chain id) := by
  obtain ⟨ids, hids⟩ := hh.outwards id hid
  have hsubset : ids ⊆ List.range h.scopes.size :=
    fun i hi => List.mem_range.2 (hh.lt_of_mem hid hids hi)
  have hle := (List.subperm_of_subset hids.nodup hsubset).length_le
  rw [List.length_range] at hle
  rwa [chain, hids.chainFrom_eq hle]

theorem searches (hh : h.Chained) (hid : id < h.scopes.size) (name : String) :
    h.Searches name id (h.holder? id name) :=
  (hh.outwards_chain hid).searches name

end Chained

/-! ## The search for a name -/

theorem Searches.unique (hs : h.Searches name id found) (hs' : h.Searches name id found') :
    found' = found := by
  induction hs with
  | found hb => cases hs' <;> simp_all
  | failed hb hparent => cases hs' <;> simp_all
  | next hb hparent _ ih =>
    cases hs' with
    | found hb' => simp [hb] at hb'
    | failed _ hparent' => simp [hparent] at hparent'
    | next _ hparent' hs' =>
      obtain rfl := Option.some.inj (hparent'.symm.trans hparent)
      exact ih hs'

theorem Searches.binds (hs : h.Searches name id (some target)) : h.binds target name = true := by
  generalize hfound : some target = found at hs
  induction hs with
  | found hb => rwa [Option.some.inj hfound]
  | failed _ _ => cases hfound
  | next _ _ _ ih => exact ih hfound

/-- A search sees only parents, and which scopes bind the name. -/
theorem Searches.congr (hs : h.Searches name id found)
    (hparent : ∀ i, (h'.scope i).parent = (h.scope i).parent)
    (hbinds : ∀ i, h'.binds i name = h.binds i name) : h'.Searches name id found := by
  induction hs with
  | found hb => exact .found ((hbinds _).trans hb)
  | failed hb hnone => exact .failed ((hbinds _).trans hb) ((hparent _).trans hnone)
  | next hb hsome _ ih => exact .next ((hbinds _).trans hb) ((hparent _).trans hsome) ih

theorem Chained.holder?_eq (hh : h.Chained) (hid : id < h.scopes.size)
    (hs : h.Searches name id found) : h.holder? id name = found :=
  hs.unique (hh.searches hid name)

/-- What is looked up is what the search finds. -/
theorem Chained.lookup_eq (hh : h.Chained) (hid : id < h.scopes.size)
    (hs : h.Searches name id found) :
    h.lookup id name = found.bind fun holder => (h.scope holder).bindings.get? name := by
  rw [lookup, hh.holder?_eq hid hs]
  cases found <;> rfl

/-- Walking outwards from a scope comes to the target, past scopes that do not bind the name. -/
inductive Sees (h : Heap) (name : String) (target : ScopeId) : ScopeId → Prop
  | here : Sees h name target target
  | next {id parent : ScopeId} : h.binds id name = false → (h.scope id).parent = some parent →
      Sees h name target parent → Sees h name target id

/-! ## Changing one binding -/

/-- The second heap has this binding, and is otherwise like the first. -/
structure Rebinds (h : Heap) (id : ScopeId) (name : String) (b : Binding) (h' : Heap) : Prop where
  binding : (h'.scope id).bindings.get? name = some b
  others : ∀ id' name', ¬ (id' = id ∧ name' = name) →
    (h'.scope id').bindings.get? name' = (h.scope id').bindings.get? name'
  parent : ∀ id', (h'.scope id').parent = (h.scope id').parent
  size : h'.scopes.size = h.scopes.size
  objects : h'.objects = h.objects
  arrays : h'.arrays = h.arrays
  closures : h'.closures = h.closures

theorem rebinds_modifyBindings (hid : id < h.scopes.size) (name : String) (b : Binding) :
    h.Rebinds id name b (h.modifyBindings id (·.insert name b)) where
  binding := by rw [scope_modifyBindings, if_pos ⟨rfl, hid⟩, Table.get?_insert, if_pos rfl]
  others id' name' hne := by
    rw [scope_modifyBindings]
    by_cases hid' : id' = id
    · have hname : name' ≠ name := fun hname => hne ⟨hid', hname⟩
      simp [hid', hid, Table.get?_insert, hname]
    · simp [hid']
  parent id' := by
    rw [scope_modifyBindings]
    split
    · next hid' => rw [hid'.1]
    · rfl
  size := size_scopes_modifyBindings h id _
  objects := rfl
  arrays := rfl
  closures := rfl

namespace Rebinds

variable {e : ScopeId} {n : String}

theorem chained (hr : h.Rebinds id name b h') (hh : h.Chained) : h'.Chained where
  parent_lt i hi parent hparent := by
    rw [hr.size] at hi ⊢
    exact hh.parent_lt i hi parent (hr.parent i ▸ hparent)
  outwards i hi := by
    obtain ⟨ids, hids⟩ := hh.outwards i (hr.size ▸ hi)
    refine ⟨ids, ?_⟩
    clear hi
    induction hids with
    | last hparent => exact .last ((hr.parent _).trans hparent)
    | next hparent _ ih => exact .next ((hr.parent _).trans hparent) ih

theorem binds (hr : h.Rebinds id name b h') : h'.binds id name = true := by
  rw [Heap.binds, Table.contains, hr.binding]
  rfl

theorem binds_of_ne (hr : h.Rebinds id name b h') (hne : ¬ (e = id ∧ n = name)) :
    h'.binds e n = h.binds e n := by
  rw [Heap.binds, Table.contains, hr.others e n hne, ← Table.contains, ← Heap.binds]

/-- Where the search ends in the changed binding, that is read. -/
theorem lookup_changed (hr : h.Rebinds id name b h') (hh : h.Chained) (he : e < h.scopes.size)
    (hs : h'.Searches name e (some id)) : h'.lookup e name = some b := by
  rw [(hr.chained hh).lookup_eq (hr.size.symm ▸ he) hs, Option.bind_some, hr.binding]

/-- Where the search ends as before, and elsewhere, the same is read as before. -/
theorem lookup_unchanged (hr : h.Rebinds id name b h') (hh : h.Chained) (he : e < h.scopes.size)
    (hs : h.Searches n e found) (hs' : h'.Searches n e found)
    (hne : ¬ (n = name ∧ found = some id)) : h'.lookup e n = h.lookup e n := by
  rw [(hr.chained hh).lookup_eq (hr.size.symm ▸ he) hs', hh.lookup_eq he hs]
  cases found with
  | none => rfl
  | some holder => exact hr.others holder n fun ⟨hid, hname⟩ => hne ⟨hname, congrArg some hid⟩

end Rebinds

/-- The binding is read under the name from the scopes in question, and nothing else is read
differently. -/
def Rereads (h : Heap) (name : String) (b : Binding) (changed : ScopeId → Prop) (h' : Heap) :
    Prop :=
  ∀ e < h.scopes.size, ∀ n,
    (n = name ∧ changed e → h'.lookup e n = some b) ∧
    (¬ (n = name ∧ changed e) → h'.lookup e n = h.lookup e n)

/-- A binding of a name that the scope binds already redirects no search. -/
theorem Rebinds.rereads_of_binds (hr : h.Rebinds id name b h') (hh : h.Chained)
    (hid : h.binds id name = true) :
    h.Rereads name b (fun e => h.Searches name e (some id)) h' := by
  intro e he n
  have hbinds : ∀ i, h'.binds i n = h.binds i n := fun i => by
    by_cases heq : i = id ∧ n = name
    · rw [heq.1, heq.2, hr.binds, hid]
    · exact hr.binds_of_ne heq
  refine ⟨fun ⟨hn, hs⟩ => ?_, fun hne => ?_⟩
  · subst hn
    exact hr.lookup_changed hh he (hs.congr hr.parent hbinds)
  · have hs := hh.searches he n
    refine hr.lookup_unchanged hh he hs (hs.congr hr.parent hbinds) fun ⟨hn, hfound⟩ => ?_
    subst hn
    exact hne ⟨rfl, hfound ▸ hs⟩

/-- A scope that is seen is found as soon as it binds the name. -/
theorem Rebinds.searches_of_sees (hr : h.Rebinds id name b h') {e : ScopeId}
    (hsees : h.Sees name id e) : h'.Searches name e (some id) := by
  induction hsees with
  | here => exact .found hr.binds
  | @next e parent hb hparent _ ih =>
    by_cases heq : e = id
    · subst heq
      exact .found hr.binds
    · exact .next ((hr.binds_of_ne fun h => heq h.1).trans hb) ((hr.parent e).trans hparent) ih

/-- A search that does not come past the scope goes as before. -/
theorem Rebinds.searches_of_not_sees (hr : h.Rebinds id name b h') {e : ScopeId}
    (hs : h.Searches name e found) (hnot : ¬ h.Sees name id e) : h'.Searches name e found := by
  induction hs with
  | found hb =>
    refine .found ((hr.binds_of_ne fun heq => hnot ?_).trans hb)
    rw [heq.1]
    exact .here
  | failed hb hparent =>
    refine .failed ((hr.binds_of_ne fun heq => hnot ?_).trans hb) ((hr.parent _).trans hparent)
    rw [heq.1]
    exact .here
  | next hb hparent _ ih =>
    refine .next ((hr.binds_of_ne fun heq => hnot ?_).trans hb) ((hr.parent _).trans hparent)
      (ih fun hsees => hnot (.next hb hparent hsees))
    rw [heq.1]
    exact .here

/-- A binding of a new name in the scope redirects the searches that come past it. -/
theorem Rebinds.rereads_of_not_binds (hr : h.Rebinds id name b h') (hh : h.Chained)
    (hid : h.binds id name = false) : h.Rereads name b (h.Sees name id) h' := by
  intro e he n
  refine ⟨fun ⟨hn, hsees⟩ => ?_, fun hne => ?_⟩
  · subst hn
    exact hr.lookup_changed hh he (hr.searches_of_sees hsees)
  · have hs := hh.searches he n
    by_cases hn : n = name
    · subst hn
      have hs' := hr.searches_of_not_sees hs fun hsees => hne ⟨rfl, hsees⟩
      refine hr.lookup_unchanged hh he hs hs' fun ⟨_, hfound⟩ => ?_
      rw [hfound] at hs
      rw [hs.binds] at hid
      cases hid
    · have hs' := hs.congr hr.parent fun i => hr.binds_of_ne fun heq => hn heq.2
      exact hr.lookup_unchanged hh he hs hs' fun heq => hn heq.1

/-! ## Assignments and declarations -/

theorem lt_of_binds (hb : h.binds id name = true) : id < h.scopes.size := by
  refine Nat.lt_of_not_le fun hle => ?_
  rw [binds, scope, getD_of_size_le hle] at hb
  cases hb

/-- The three ways in which an assignment goes, by what is looked up. -/
theorem assign_eq (h : Heap) (e : ScopeId) (n : String) (v : Value) :
    h.assign e n v = match h.lookup e n with
      | none => .error .undeclared
      | some ⟨_, .constant⟩ => .error .constant
      | some ⟨_, .mutable⟩ =>
        .ok (h.modifyBindings ((h.holder? e n).getD 0) (·.insert n ⟨v, .mutable⟩)) := by
  rw [assign, lookup]
  cases h.holder? e n with
  | none => rfl
  | some holder =>
    cases hb : (h.scope holder).bindings.get? n with
    | none => simp [hb]
    | some old =>
      obtain ⟨old, mutability⟩ := old
      cases mutability <;> simp [hb]

/-- An assignment to a mutable binding changes the one that the search finds. -/
theorem Chained.assign_rereads (hh : h.Chained) {e : ScopeId} (he : e < h.scopes.size) {n : String}
    {old : Value} (hold : h.lookup e n = some ⟨old, .mutable⟩) (v : Value) :
    ∃ holder h', h.Searches n e (some holder) ∧ h.assign e n v = .ok h' ∧
      h.Rebinds holder n ⟨v, .mutable⟩ h' ∧
      h.Rereads n ⟨v, .mutable⟩ (fun e' => h.Searches n e' (some holder)) h' := by
  have hs := hh.searches he n
  cases hholder : h.holder? e n with
  | none =>
    rw [lookup, hholder] at hold
    cases hold
  | some holder =>
    rw [hholder] at hs
    have hr := rebinds_modifyBindings (lt_of_binds hs.binds) n ⟨v, .mutable⟩
    refine ⟨holder, _, hs, ?_, hr, hr.rereads_of_binds hh hs.binds⟩
    rw [assign_eq, hold, hholder]
    rfl

/-- A declaration of a name that the scope does not bind adds its binding. -/
theorem Chained.declare_rereads (hh : h.Chained) {e : ScopeId} (he : e < h.scopes.size) {n : String}
    (hfree : h.binds e n = false) (b : Binding) :
    ∃ h', h.declare e n b = .ok h' ∧ h.Rebinds e n b h' ∧ h.Rereads n b (h.Sees n e) h' := by
  have hr := rebinds_modifyBindings he n b
  refine ⟨_, ?_, hr, hr.rereads_of_not_binds hh hfree⟩
  rw [declare, hfree]
  rfl

end Heap

/-- An operation that fails changes nothing. -/
theorem Run.final_onScope_of_error {name : String} {f : Heap → Except ScopeError Heap} {s : State}
    {e : ScopeError} (he : f s.heap = .error e) : (Run.onScope name f).final s = s := by
  rw [final, onScope, he]

namespace Heap

variable {h : Heap}

/-- When assignments and declarations fail, what they change otherwise, and what is read after
them. -/
theorem Chained.read_after_write (hh : h.Chained) {e : ScopeId} (he : e < h.scopes.size)
    (n : String) :
    (∀ v, (h.assign e n v = .error .undeclared ↔ h.lookup e n = none) ∧
      (h.assign e n v = .error .constant ↔ ∃ old, h.lookup e n = some ⟨old, .constant⟩) ∧
      (∀ (s : State) error, s.heap.assign e n v = .error error →
        (Run.onScope n (·.assign e n v)).final s = s) ∧
      ∀ old, h.lookup e n = some ⟨old, .mutable⟩ →
        ∃ holder h', h.Searches n e (some holder) ∧ h.assign e n v = .ok h' ∧
          h.Rebinds holder n ⟨v, .mutable⟩ h' ∧
          h.Rereads n ⟨v, .mutable⟩ (fun e' => h.Searches n e' (some holder)) h') ∧
    (∀ b, (h.declare e n b = .error .redeclared ↔ h.binds e n = true) ∧
      (∀ (s : State) error, s.heap.declare e n b = .error error →
        (Run.onScope n (·.declare e n b)).final s = s) ∧
      (h.binds e n = false →
        ∃ h', h.declare e n b = .ok h' ∧ h.Rebinds e n b h' ∧ h.Rereads n b (h.Sees n e) h')) ∧
    ∀ e' n', h.read e' n' =
      (h.lookup e' n').elim (.error .undeclared) fun b => .ok b.value := by
  refine ⟨fun v => ⟨?_, ?_, fun s error herror => ?_, fun old hold => ?_⟩,
    fun b => ⟨?_, fun s error herror => ?_, fun hfree => ?_⟩, fun e' n' => ?_⟩
  · rw [assign_eq]
    rcases h.lookup e n with _ | ⟨old, _ | _⟩ <;> simp
  · rw [assign_eq]
    rcases h.lookup e n with _ | ⟨old, _ | _⟩ <;> simp
  · exact Run.final_onScope_of_error herror
  · exact hh.assign_rereads he hold v
  · rw [declare]
    split <;> simp_all
  · exact Run.final_onScope_of_error herror
  · exact hh.declare_rereads he hfree b
  · rw [read]
    cases h.lookup e' n' <;> rfl

/-- Two scopes inside a third one, which is younger than the first: an assignment in the first is
read in the third, not in the second, which has a constant of that name, and a declaration is read
only where it is made. -/
theorem Chained.read_after_write_shared :
    let a : Binding := ⟨.string "a", .mutable⟩
    let b : Binding := ⟨.string "b", .constant⟩
    let c : Binding := ⟨.string "c", .mutable⟩
    let h : Heap := ⟨#[⟨.empty, some 1⟩, ⟨Table.empty.insert "x" a, none⟩,
      ⟨Table.empty.insert "x" b, some 1⟩], #[], #[], #[]⟩
    h.Chained ∧ h.assign 2 "x" c.value = .error .constant ∧
      (∃ h', h.assign 0 "x" c.value = .ok h' ∧
        h'.lookup 1 "x" = some c ∧ h'.lookup 2 "x" = some b) ∧
      ∃ h', h.declare 0 "x" c = .ok h' ∧ h'.lookup 0 "x" = some c ∧ h'.lookup 1 "x" = some a := by
  intro a b c h
  have houter : h.Outwards 1 [1] := .last rfl
  have hh : h.Chained := by
    refine ⟨fun id hid parent hparent => ?_, fun id hid => ?_⟩
    · rcases id with _ | _ | _ | id <;> cases hparent <;> decide
    · rcases id with _ | _ | _ | id
      · exact ⟨_, .next rfl houter⟩
      · exact ⟨_, houter⟩
      · exact ⟨_, .next rfl houter⟩
      · exact absurd hid (Nat.not_lt.2 (Nat.le_add_left 3 id))
  obtain ⟨hassign, hdeclare, -⟩ := hh.read_after_write (e := 0) (by decide) "x"
  obtain ⟨holder, h₁, hholder, hok₁, -, hread₁⟩ := (hassign c.value).2.2.2 a.value rfl
  obtain ⟨h₂, hok₂, -, hread₂⟩ := (hdeclare c).2.2 rfl
  have hone : h.Searches "x" 1 (some 1) := .found rfl
  obtain rfl : 1 = holder := Option.some.inj (hholder.unique (.next rfl rfl hone))
  refine ⟨hh, rfl, ⟨h₁, hok₁, (hread₁ 1 (by decide) "x").1 ⟨rfl, hone⟩, ?_⟩,
    h₂, hok₂, (hread₂ 0 (by decide) "x").1 ⟨rfl, .here⟩, ?_⟩
  · refine (hread₁ 2 (by decide) "x").2 fun ⟨_, htwo⟩ => ?_
    cases htwo.unique (.found rfl)
  · refine (hread₂ 1 (by decide) "x").2 fun ⟨_, hsees⟩ => ?_
    cases hsees with
    | next hb _ _ => cases hb

end Heap

end DialectScript
