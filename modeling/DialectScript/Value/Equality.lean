import DialectScript.Value.Heap

/-!
# Equality of values

Plain values are equal by content, functions by place, containers by place or else by what they
hold. The comparison follows at most a thousand levels of containers; containers below that
are equal only by place.
-/

namespace DialectScript.Heap

/-- The number of levels of containers that a comparison opens. -/
def equalLevels : Nat := 1000

/-- Whether two values are equal when `levels` levels of containers may be opened. -/
def equalAt (h : Heap) : (levels : Nat) → Value → Value → Bool
  | _, .null, .null => true
  | _, .number x, .number y => x == y
  | _, .string s, .string t => s == t
  | _, .boolean a, .boolean b => a == b
  | _, .function i, .function j => i == j
  | _, .builtin a, .builtin b => a == b
  | 0, .object i, .object j => i == j
  | levels + 1, .object i, .object j =>
    i == j ||
      ((h.object i).size == (h.object j).size &&
        (h.object i).entries.all fun (key, v) =>
          match (h.object j).get? key with
          | none => false
          | some w => h.equalAt levels v w)
  | 0, .array i, .array j => i == j
  | levels + 1, .array i, .array j =>
    i == j ||
      ((h.array i).size == (h.array j).size &&
        ((h.array i).toList.zip (h.array j).toList).all fun (v, w) => h.equalAt levels v w)
  | _, _, _ => false

/-- Whether two values are equal. -/
def equal (h : Heap) (v w : Value) : Bool := h.equalAt equalLevels v w

end DialectScript.Heap
