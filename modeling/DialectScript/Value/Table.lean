/-!
# Tables

A table maps names to entries and remembers the order in which the names were first put in. No
name occurs twice: the type says so. Object properties and the bindings of a scope are tables.
-/

namespace DialectScript

/-- A map from names, in order of insertion. -/
structure Table (α : Type) where
  entries : List (String × α)
  nodup : (entries.map Prod.fst).Nodup

namespace Table

variable {α : Type}

/-- The table without entries. -/
def empty : Table α := ⟨[], .nil⟩

instance : Inhabited (Table α) := ⟨empty⟩

/-- The names, in order. -/
def keys (t : Table α) : List String := t.entries.map Prod.fst

/-- The number of entries. -/
def size (t : Table α) : Nat := t.entries.length

/-- The entry under a name. -/
def get? (t : Table α) (key : String) : Option α := t.entries.lookup key

/-- Whether a name has an entry. -/
def contains (t : Table α) (key : String) : Bool := (t.get? key).isSome

/-- Put an entry in its place in a list of entries: over the one with its name, or at the
end. -/
def put (key : String) (a : α) : List (String × α) → List (String × α)
  | [] => [(key, a)]
  | (k, b) :: rest => if k = key then (k, a) :: rest else (k, b) :: put key a rest

theorem put_keys (key : String) (a : α) (entries : List (String × α)) :
    (put key a entries).map Prod.fst =
      if key ∈ entries.map Prod.fst then entries.map Prod.fst
      else entries.map Prod.fst ++ [key] := by
  induction entries with
  | nil => simp [put]
  | cons e rest ih =>
    obtain ⟨k, b⟩ := e
    by_cases h : k = key
    · simp [put, h]
    · have h' : key ≠ k := Ne.symm h
      simp only [put, h, if_false, List.map_cons, ih, List.mem_cons, h', false_or]
      split <;> simp

theorem put_nodup (key : String) (a : α) {entries : List (String × α)}
    (h : (entries.map Prod.fst).Nodup) : ((put key a entries).map Prod.fst).Nodup := by
  rw [put_keys]
  split
  · exact h
  · next hk =>
    rw [List.nodup_append]
    refine ⟨h, by simp, fun x hx y hy => ?_⟩
    simp only [List.mem_singleton] at hy
    exact fun hxy => hk (hy ▸ hxy ▸ hx)

/-- The table with an entry put in: a name that is there keeps its place and takes the new
entry, another name comes last. -/
def insert (t : Table α) (key : String) (a : α) : Table α :=
  ⟨put key a t.entries, put_nodup key a t.nodup⟩

/-! ## Reading after putting in -/

theorem lookup_put (key : String) (a : α) (entries : List (String × α)) (name : String) :
    (put key a entries).lookup name = if name = key then some a else entries.lookup name := by
  induction entries with
  | nil => by_cases h : name = key <;> simp [put, List.lookup_cons, h, beq_false_of_ne]
  | cons e rest ih =>
    obtain ⟨k, b⟩ := e
    by_cases hk : k = key
    · subst hk
      by_cases h : name = k <;> simp [put, List.lookup_cons, h, beq_false_of_ne]
    · by_cases h : name = k
      · subst h
        simp [put, hk]
      · simp [put, hk, List.lookup_cons, beq_false_of_ne h, ih]

theorem get?_insert (t : Table α) (key : String) (a : α) (name : String) :
    (t.insert key a).get? name = if name = key then some a else t.get? name :=
  lookup_put key a t.entries name

theorem contains_insert (t : Table α) (key : String) (a : α) (name : String) :
    (t.insert key a).contains name = (name == key || t.contains name) := by
  rw [contains, get?_insert]
  by_cases h : name = key <;> simp [h, contains]

/-- The entry under its name is the one that stands in the list. -/
theorem get?_of_mem {t : Table α} {e : String × α} (he : e ∈ t.entries) :
    t.get? e.1 = some e.2 := by
  obtain ⟨entries, hnodup⟩ := t
  unfold get?
  dsimp only at he ⊢
  induction entries with
  | nil => cases he
  | cons e' rest ih =>
    rw [List.map_cons, List.nodup_cons] at hnodup
    rcases List.mem_cons.1 he with rfl | he
    · rw [List.lookup_cons_self]
    · have hne : e.1 ≠ e'.1 := fun heq => hnodup.1 (heq ▸ List.mem_map_of_mem he)
      rw [List.lookup_cons, beq_false_of_ne hne]
      exact ih hnodup.2 he

theorem contains_iff_mem_keys (t : Table α) (key : String) :
    t.contains key = true ↔ key ∈ t.keys := by
  unfold contains get? keys
  induction t.entries with
  | nil => simp
  | cons e rest ih =>
    obtain ⟨k, b⟩ := e
    by_cases h : key = k
    · simp [h]
    · rw [List.lookup_cons, beq_false_of_ne h, List.map_cons, List.mem_cons]
      simp only [ih, h, false_or]

theorem keys_insert (t : Table α) (key : String) (a : α) :
    (t.insert key a).keys = if key ∈ t.keys then t.keys else t.keys ++ [key] :=
  put_keys key a t.entries

/-- A new entry under a name that is there changes neither the names nor their order. -/
theorem keys_insert_of_contains {t : Table α} {key : String} (h : t.contains key = true) (a : α) :
    (t.insert key a).keys = t.keys :=
  (t.keys_insert key a).trans (if_pos ((t.contains_iff_mem_keys key).1 h))

theorem put_of_not_mem {key : String} {entries : List (String × α)}
    (h : key ∉ entries.map Prod.fst) (a : α) : put key a entries = entries ++ [(key, a)] := by
  induction entries with
  | nil => rfl
  | cons e rest ih =>
    obtain ⟨k, b⟩ := e
    rw [List.map_cons, List.mem_cons, not_or] at h
    rw [put, if_neg (Ne.symm h.1), ih h.2, List.cons_append]

/-- A new entry under another name comes last. -/
theorem entries_insert_of_not_contains {t : Table α} {key : String}
    (h : t.contains key = false) (a : α) : (t.insert key a).entries = t.entries ++ [(key, a)] := by
  refine put_of_not_mem (fun hkey => ?_) a
  rw [(t.contains_iff_mem_keys key).2 hkey] at h
  cases h

theorem keys_insert_of_not_contains {t : Table α} {key : String} (h : t.contains key = false)
    (a : α) : (t.insert key a).keys = t.keys ++ [key] := by
  rw [keys, entries_insert_of_not_contains h, List.map_append]
  rfl

end Table

end DialectScript
