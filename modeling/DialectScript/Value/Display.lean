import DialectScript.Decimal.Style
import DialectScript.Text.Quoted
import DialectScript.Value.Heap

/-!
# Texts of values

Two texts of a value: what a script prints (`Heap.display`) and what an inspection shows
(`Heap.inspect`). Containers may contain themselves, so both stop at a depth: printing shows ten
levels, inspection thirty-two, and a container below that is shown by a mark.
-/

namespace DialectScript.Heap

/-- The number of levels of containers that printing shows. -/
def displayLevels : Nat := 10

/-- The number of levels of containers that an inspection shows. -/
def inspectLevels : Nat := 32

/-- The indentation of an entry at a depth. -/
def indent (depth : Nat) : String := "".pushn ' ' (2 * depth)

/-- Print a value that stands inside `depth` containers, of which `levels` more may be
opened. -/
def displayAt (h : Heap) : (levels depth : Nat) → Value → String
  | _, _, .null => "null"
  | _, _, .number x => NumberStyle.script.write x
  | _, _, .string text => text
  | _, _, .boolean b => if b then "true" else "false"
  | _, _, .function id => "[function " ++ (h.closure id).name ++ "]"
  | _, _, .builtin _ => "[native function]"
  | 0, _, .object _ => "\x7b ... \x7d"
  | 0, _, .array _ => "[ ... ]"
  | levels + 1, depth, .object id =>
    let lines := (h.object id).entries.map fun (key, v) =>
      indent (depth + 1) ++ key ++ ": " ++ h.displayAt levels (depth + 1) v ++ ",\n"
    "\x7b\n" ++ String.join lines ++ indent depth ++ "\x7d"
  | levels + 1, depth, .array id =>
    "[" ++ ", ".intercalate ((h.array id).toList.map (h.displayAt levels (depth + 1))) ++ "]"

/-- What a script prints for a value. -/
def display (h : Heap) (v : Value) : String := h.displayAt displayLevels 0 v

/-- Show a value of which `levels` levels of containers may be opened. -/
def inspectAt (h : Heap) : (levels : Nat) → Value → String
  | _, .null => "Null"
  | _, .number x => "Number(" ++ NumberStyle.message.write x ++ ")"
  | _, .string text => "String(" ++ Text.quote text ++ ")"
  | _, .boolean b => if b then "Boolean(true)" else "Boolean(false)"
  | _, .function id =>
    let c := h.closure id
    "Function(" ++ c.name ++ "(" ++ ", ".intercalate c.params ++ "))"
  | _, .builtin b => "NativeFunction(" ++ b.name ++ ")"
  | 0, .object _ => ".."
  | 0, .array _ => ".."
  | levels + 1, .object id =>
    let entries := (h.object id).entries.map fun (key, v) =>
      Text.quote key ++ ": " ++ h.inspectAt levels v
    "\x7b" ++ ", ".intercalate entries ++ "\x7d"
  | levels + 1, .array id =>
    "[" ++ ", ".intercalate ((h.array id).toList.map (h.inspectAt levels)) ++ "]"

/-- What an inspection shows for a value. -/
def inspect (h : Heap) (v : Value) : String := h.inspectAt inspectLevels v

/-- What an inspection shows for a scope: its own names in order of their bytes, and whether a
scope stands around it. -/
def inspectScope (h : Heap) (id : ScopeId) : String :=
  let s := h.scope id
  let names := s.bindings.keys.mergeSort fun a b => a ≤ b
  "Environment \x7b bindings: [" ++ ", ".intercalate (names.map Text.quote) ++
    "], has_parent: " ++ (if s.parent.isSome then "true" else "false") ++ " \x7d"

end DialectScript.Heap
