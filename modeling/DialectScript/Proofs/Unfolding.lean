import DialectScript.Proofs.Comparison

/-!
# Equality and unfoldings

Written out without any sharing, a value is a tree, its unfolding (`Heap.Unfolds`). The tree is
finite unless a container is within itself.

**Theorem (`Heap.Unfolds.equal_iff_same`).** A value whose unfolding nests at most a thousand
containers and has nothing in it that is no number is equal to another value exactly if their
unfoldings are the same (`Unfolding.Same`): property by property in whatever order, element by
element, and plain values by what they are. So it makes no difference what is shared: the answer is
the same for all values, on this heap or another, that have these unfoldings.

The proof is an induction over the first unfolding. Where both values are the same container, the
comparison does not look inside; then both unfoldings are of one value and the same for that reason
(`Heap.Unfolds.same`), and here it matters that every number in them is equal to itself.
-/

namespace DialectScript

/-- The value is no container. -/
def Value.isPlain : Value → Bool
  | .object _ | .array _ => false
  | _ => true

/-- A value written out: a plain value, or what a container holds, written out. -/
inductive Unfolding where
  | leaf (v : Value)
  | object (entries : List (String × Unfolding))
  | array (elements : List Unfolding)

namespace Unfolding

/-! ## Trees -/

mutual

/-- How many containers are nested at most. -/
def levels : Unfolding → Nat
  | .leaf _ => 0
  | .object entries => entryLevels entries + 1
  | .array elements => elementLevels elements + 1

def entryLevels : List (String × Unfolding) → Nat
  | [] => 0
  | (_, t) :: rest => max t.levels (entryLevels rest)

def elementLevels : List Unfolding → Nat
  | [] => 0
  | t :: rest => max t.levels (elementLevels rest)

end

mutual

/-- The numbers that stand in the tree. -/
def numbers : Unfolding → List Float
  | .leaf (.number x) => [x]
  | .leaf _ => []
  | .object entries => entryNumbers entries
  | .array elements => elementNumbers elements

def entryNumbers : List (String × Unfolding) → List Float
  | [] => []
  | (_, t) :: rest => t.numbers ++ entryNumbers rest

def elementNumbers : List Unfolding → List Float
  | [] => []
  | t :: rest => t.numbers ++ elementNumbers rest

end

/-- Two trees are the same: equal plain values, or the same trees under the same names or at the
same indices. -/
inductive Same : Unfolding → Unfolding → Prop
  | leaf {v w : Value} :
      v.Agree (fun _ _ => False) (fun _ _ => False) w → Same (.leaf v) (.leaf w)
  | object {entries entries' : List (String × Unfolding)} :
      (∀ key, Option.Rel Same (entries.lookup key) (entries'.lookup key)) →
      Same (.object entries) (.object entries')
  | array {elements elements' : List Unfolding} :
      (∀ i : Nat, Option.Rel Same elements[i]? elements'[i]?) →
      Same (.array elements) (.array elements')

/-- What stands in a tree nests fewer containers, and its numbers stand in the tree. -/
structure Inside (t whole : Unfolding) : Prop where
  levels : t.levels < whole.levels
  numbers : t.numbers ⊆ whole.numbers

theorem inside_of_lookup {entries : List (String × Unfolding)} {key : String} {t : Unfolding}
    (ht : entries.lookup key = some t) : t.Inside (object entries) := by
  suffices h : t.levels ≤ entryLevels entries ∧ t.numbers ⊆ entryNumbers entries from
    ⟨by rw [levels]; exact Nat.lt_succ_of_le h.1, by rw [numbers]; exact h.2⟩
  induction entries with
  | nil => cases ht
  | cons e rest ih =>
    obtain ⟨k, first⟩ := e
    rw [entryLevels, entryNumbers]
    rw [List.lookup_cons] at ht
    cases hk : key == k <;> rw [hk] at ht
    · obtain ⟨hlevels, hnumbers⟩ := ih ht
      exact ⟨Nat.le_trans hlevels (Nat.le_max_right _ _),
        List.subset_append_of_subset_right _ hnumbers⟩
    · cases ht
      exact ⟨Nat.le_max_left _ _, List.subset_append_left _ _⟩

theorem inside_of_getElem? {elements : List Unfolding} {i : Nat} {t : Unfolding}
    (ht : elements[i]? = some t) : t.Inside (array elements) := by
  suffices h : t.levels ≤ elementLevels elements ∧ t.numbers ⊆ elementNumbers elements from
    ⟨by rw [levels]; exact Nat.lt_succ_of_le h.1, by rw [numbers]; exact h.2⟩
  induction elements generalizing i with
  | nil => cases ht
  | cons first rest ih =>
    rw [elementLevels, elementNumbers]
    cases i with
    | zero =>
      cases ht
      exact ⟨Nat.le_max_left _ _, List.subset_append_left _ _⟩
    | succ i =>
      obtain ⟨hlevels, hnumbers⟩ := ih ht
      exact ⟨Nat.le_trans hlevels (Nat.le_max_right _ _),
        List.subset_append_of_subset_right _ hnumbers⟩

end Unfolding

/-! ## Values written out -/

/-- Plain values agree in the same way, whichever containers are equal. -/
theorem Value.Agree.of_isPlain {objects objects' arrays arrays' : Nat → Nat → Prop} {v w : Value}
    (hv : v.isPlain = true) (h : v.Agree objects arrays w) : v.Agree objects' arrays' w := by
  cases h with
  | null => exact .null
  | number hxy => exact .number hxy
  | string text => exact .string text
  | boolean b => exact .boolean b
  | function id => exact .function id
  | builtin hab => exact .builtin hab
  | object _ | array _ => cases hv

namespace Heap

/-- The value, written out on this heap. -/
inductive Unfolds (h : Heap) : Value → Unfolding → Prop
  | leaf {v : Value} : v.isPlain = true → Unfolds h v (.leaf v)
  | object {id : ObjectId} {entries : List (String × Unfolding)} :
      (h.object id).keys = entries.map Prod.fst →
      (∀ key v t, (h.object id).get? key = some v → entries.lookup key = some t → Unfolds h v t) →
      Unfolds h (.object id) (.object entries)
  | array {id : ArrayId} {elements : List Unfolding} :
      (h.array id).size = elements.length →
      (∀ (i : Nat) v t, (h.array id)[i]? = some v → elements[i]? = some t → Unfolds h v t) →
      Unfolds h (.array id) (.array elements)

section

variable {α β γ δ : Type} {r : α → β → Prop} {r' : γ → δ → Prop} {a : Option α} {b : Option β}
  {c : Option γ} {d : Option δ}

theorem rel_of_isSome (hab : a.isSome = b.isSome)
    (h : ∀ x y, a = some x → b = some y → r x y) : Option.Rel r a b := by
  cases a <;> cases b
  case none.none => exact .none
  case some.some => exact .some (h _ _ rfl rfl)
  all_goals cases hab

theorem rel_congr (hac : a.isSome = c.isSome) (hbd : b.isSome = d.isSome)
    (h : ∀ x y z w, a = some x → b = some y → c = some z → d = some w → (r x y ↔ r' z w)) :
    Option.Rel r a b ↔ Option.Rel r' c d := by
  cases a <;> cases b <;> cases c <;> cases d <;> simp_all

/-- What is written out of a table has its names. -/
theorem isSome_get?_of_keys {table : Table α} {entries : List (String × β)}
    (hkeys : table.keys = entries.map Prod.fst) (key : String) :
    (table.get? key).isSome = (entries.lookup key).isSome := by
  have hmem : key ∈ entries.map Prod.fst ↔ (entries.lookup key).isSome = true := by
    simp [List.lookup_isSome_iff]
  rw [Bool.eq_iff_iff, ← hmem, ← hkeys]
  exact table.contains_iff_mem_keys key

theorem isSome_getElem?_of_size {xs : Array α} {elements : List β}
    (hsize : xs.size = elements.length) (i : Nat) : xs[i]?.isSome = elements[i]?.isSome := by
  rw [Bool.eq_iff_iff]
  simp [hsize]

end

namespace Unfolds

variable {h : Heap} {v w : Value} {t u : Unfolding} {levels : Nat}

/-- Two unfoldings of one value are the same, if its numbers are equal to themselves. -/
theorem same (ht : h.Unfolds v t) (hu : h.Unfolds v u)
    (hnum : ∀ x ∈ t.numbers, x.isNaN = false) : t.Same u := by
  -- One value, unfolded twice: at every key or place the same value unfolds on both sides.
  induction ht generalizing u with
  | @leaf v hv =>
    cases hu with
    | leaf _ =>
      refine .leaf ?_
      cases v with
      | number x => exact .number (Binary.beq_self (hnum x (List.mem_singleton_self x)))
      | null => exact .null
      | string text => exact .string text
      | boolean b => exact .boolean b
      | function id => exact .function id
      | builtin b => exact .builtin rfl
      | object _ | array _ => cases hv
    | object _ _ | array _ _ => cases hv
  | @object id entries hkeys _ ih =>
    cases hu with
    | leaf hv => cases hv
    | object hkeys' hentries =>
      refine .object fun key => ?_
      have hsome := isSome_get?_of_keys hkeys key
      refine rel_of_isSome (hsome.symm.trans (isSome_get?_of_keys hkeys' key)) fun t u ht hu => ?_
      rw [ht, Option.isSome_some] at hsome
      obtain ⟨v, hv⟩ := Option.isSome_iff_exists.1 hsome
      exact ih key v t hv ht (hentries key v u hv hu) fun x hx =>
        hnum x ((Unfolding.inside_of_lookup ht).numbers hx)
  | @array id elements hsize _ ih =>
    cases hu with
    | leaf hv => cases hv
    | array hsize' helements =>
      refine .array fun i => ?_
      have hsome := isSome_getElem?_of_size hsize i
      refine rel_of_isSome (hsome.symm.trans (isSome_getElem?_of_size hsize' i)) fun t u ht hu => ?_
      rw [ht, Option.isSome_some] at hsome
      obtain ⟨v, hv⟩ := Option.isSome_iff_exists.1 hsome
      exact ih i v t hv ht (helements i v u hv hu) fun x hx =>
        hnum x ((Unfolding.inside_of_getElem? ht).numbers hx)

theorem equalAt_iff_same (ht : h.Unfolds v t) (hu : h.Unfolds w u) (hlevels : t.levels ≤ levels)
    (hnum : ∀ x ∈ t.numbers, x.isNaN = false) :
    h.equalAt levels v w = true ↔ t.Same u := by
  -- Down the first tree, with levels enough for it, so that the comparison never runs out of them.
  induction ht generalizing w u levels with
  | @leaf v hv =>
    rw [equalAt_iff]
    cases hu with
    | leaf _ =>
      refine ⟨fun hagree => .leaf (hagree.of_isPlain hv), fun hsame => ?_⟩
      cases hsame with
      | leaf hagree => exact hagree.of_isPlain hv
    | object _ _ | array _ _ =>
      refine iff_of_false (fun hagree => ?_) nofun
      cases hagree
      cases hv
  | @object i entries hkeys hentries ih =>
    obtain ⟨below, rfl⟩ := Nat.exists_eq_add_of_le' (Nat.le_trans (Nat.le_add_left 1 _) hlevels)
    cases hu with
    | leaf hw =>
      refine iff_of_false (fun heq => ?_) nofun
      cases (h.equalAt_iff _ _ _).1 heq
      cases hw
    | array _ _ => exact iff_of_false (fun heq => by cases (h.equalAt_iff _ _ _).1 heq) nofun
    | object hkeys' hentries' =>
      -- A missing key is missing in both trees, so values are compared only if both have them.
      have hcontents := forall_congr' fun key =>
        rel_congr (isSome_get?_of_keys hkeys key) (isSome_get?_of_keys hkeys' key)
          fun v w t u hv hw ht hu =>
            have hinside := Unfolding.inside_of_lookup ht
            ih key v t hv ht (hentries' key w u hw hu)
              (Nat.le_of_lt_succ (Nat.lt_of_lt_of_le hinside.levels hlevels))
              fun x hx => hnum x (hinside.numbers hx)
      rw [equalAt_object_iff, equalObjects_succ_iff, hcontents]
      constructor
      · rintro (rfl | hsame)
        -- A container is equal to itself without a look inside: both trees are its own.
        · exact (Unfolds.object hkeys hentries).same (.object hkeys' hentries') hnum
        · exact .object hsame
      · intro hsame
        cases hsame with
        | object hsame => exact .inr hsame
  | @array i elements hsize helements ih =>
    obtain ⟨below, rfl⟩ := Nat.exists_eq_add_of_le' (Nat.le_trans (Nat.le_add_left 1 _) hlevels)
    cases hu with
    | leaf hw =>
      refine iff_of_false (fun heq => ?_) nofun
      cases (h.equalAt_iff _ _ _).1 heq
      cases hw
    | object _ _ => exact iff_of_false (fun heq => by cases (h.equalAt_iff _ _ _).1 heq) nofun
    | array hsize' helements' =>
      have hcontents := forall_congr' fun i =>
        rel_congr (isSome_getElem?_of_size hsize i) (isSome_getElem?_of_size hsize' i)
          fun v w t u hv hw ht hu =>
            have hinside := Unfolding.inside_of_getElem? ht
            ih i v t hv ht (helements' i w u hw hu)
              (Nat.le_of_lt_succ (Nat.lt_of_lt_of_le hinside.levels hlevels))
              fun x hx => hnum x (hinside.numbers hx)
      rw [equalAt_array_iff, equalArrays_succ_iff, hcontents]
      constructor
      · rintro (rfl | hsame)
        · exact (Unfolds.array hsize helements).same (.array hsize' helements') hnum
        · exact .array hsame
      · intro hsame
        cases hsame with
        | array hsame => exact .inr hsame

/-- Values are equal if their unfoldings are the same, whatever is shared in them. -/
theorem equal_iff_same (ht : h.Unfolds v t) (hu : h.Unfolds w u)
    (hlevels : t.levels ≤ equalLevels) (hnum : ∀ x ∈ t.numbers, x.isNaN = false) :
    (h.equal v w = true ↔ t.Same u) ∧
      ∀ (h' : Heap) v' w', h'.Unfolds v' t → h'.Unfolds w' u → h'.equal v' w' = h.equal v w := by
  have hequal := ht.equalAt_iff_same hu hlevels hnum
  refine ⟨hequal, fun h' v' w' ht' hu' => ?_⟩
  exact Bool.eq_iff_iff.2 ((ht'.equalAt_iff_same hu' hlevels hnum).trans hequal.symm)

/-- In the first object one array stands twice in an array, in the second one two arrays stand
there; the zeros in these have different signs, and the properties were put in in different
orders. -/
theorem equal_iff_same_shared :
    let pair (i j : ArrayId) : Array Value := #[.array i, .array j]
    let first : Table Value := (Table.empty.insert "xs" (.array 1)).insert "x" .null
    let second : Table Value := (Table.empty.insert "x" .null).insert "xs" (.array 3)
    let h : Heap :=
      ⟨#[], #[first, second], #[#[.number 0.0], pair 0 0, #[.number (-0.0)], pair 0 2], #[]⟩
    let pairOf (x y : Float) : Unfolding :=
      .array [.array [.leaf (.number x)], .array [.leaf (.number y)]]
    let t : Unfolding := .object [("xs", pairOf 0.0 0.0), ("x", .leaf .null)]
    let u : Unfolding := .object [("x", .leaf .null), ("xs", pairOf 0.0 (-0.0))]
    h.Unfolds (.object 0) t ∧ h.Unfolds (.object 1) u ∧ t.levels ≤ equalLevels ∧
      (∀ x ∈ t.numbers, x.isNaN = false) ∧ t.Same u ∧ h.equal (.object 0) (.object 1) = true := by
  intro pair first second h pairOf t u
  have hsingle {i : ArrayId} {x : Float} (hi : h.array i = #[.number x]) :
      h.Unfolds (.array i) (.array [.leaf (.number x)]) := by
    refine .array (by rw [hi]; rfl) fun k v u hv hu => ?_
    rw [hi] at hv
    rcases k with _ | k
    · cases hv
      cases hu
      exact .leaf rfl
    · cases hu
  have hpair {i j k : ArrayId} {x y : Float} (hi : h.array i = pair j k)
      (hj : h.array j = #[.number x]) (hk : h.array k = #[.number y]) :
      h.Unfolds (.array i) (pairOf x y) := by
    refine .array (by rw [hi]; rfl) fun k v u hv hu => ?_
    rw [hi] at hv
    rcases k with _ | _ | k
    · cases hv
      cases hu
      exact hsingle hj
    · cases hv
      cases hu
      exact hsingle hk
    · cases hu
  have hobject {i : ObjectId} {key key' : String} {v v' : Value} {u u' : Unfolding}
      (hi : (h.object i).entries = [(key, v), (key', v')]) (hu : h.Unfolds v u)
      (hu' : h.Unfolds v' u') : h.Unfolds (.object i) (.object [(key, u), (key', u')]) := by
    refine .object (by rw [Table.keys, hi]; rfl) fun k w r hw hr => ?_
    rw [Table.get?, hi, List.lookup_cons] at hw
    rw [List.lookup_cons] at hr
    cases hk : k == key <;> rw [hk] at hw hr
    · rw [List.lookup_cons] at hw hr
      cases hk' : k == key' <;> rw [hk'] at hw hr
      · cases hw
      · cases hw
        cases hr
        exact hu'
    · cases hw
      cases hr
      exact hu
  have ht : h.Unfolds (.object 0) t := hobject rfl (hpair rfl rfl rfl) (.leaf rfl)
  have hu : h.Unfolds (.object 1) u := hobject rfl (.leaf rfl) (hpair rfl rfl rfl)
  have hlevels : t.levels ≤ equalLevels := by decide
  have hnum : ∀ x ∈ t.numbers, x.isNaN = false := by decide
  have hequal : h.equal (.object 0) (.object 1) = true := by decide +kernel
  exact ⟨ht, hu, hlevels, hnum, (equal_iff_same ht hu hlevels hnum).1.1 hequal, hequal⟩

end Unfolds

end Heap

end DialectScript
