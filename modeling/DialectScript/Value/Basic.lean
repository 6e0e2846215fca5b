/-!
# Values

What a script computes with. Objects, arrays, scopes and functions live in a heap, and a value
holds the place of one: two values with the same place share what is stored there.
-/

namespace DialectScript

/-- The place of a scope in the heap. -/
abbrev ScopeId := Nat

/-- The place of an object in the heap. -/
abbrev ObjectId := Nat

/-- The place of an array in the heap. -/
abbrev ArrayId := Nat

/-- The place of a function in the heap. -/
abbrev FunctionId := Nat

/-- The functions that every script finds ready. -/
inductive Builtin where
  | print
  | not
  | str
  | length
  | push
  | pop
  | shift
  | unshift
deriving DecidableEq, Inhabited

/-- The name of a built-in function in messages. -/
def Builtin.name : Builtin → String
  | .print => "print"
  | .not => "not"
  | .str => "str"
  | .length => "Array.length"
  | .push => "Array.push"
  | .pop => "Array.pop"
  | .shift => "Array.shift"
  | .unshift => "Array.unshift"

/-- A value of a running script. -/
inductive Value where
  | null
  | number (x : Float)
  | string (text : String)
  | boolean (b : Bool)
  | object (id : ObjectId)
  | array (id : ArrayId)
  | function (id : FunctionId)
  | builtin (b : Builtin)
deriving DecidableEq, Inhabited

/-- The types of values. -/
inductive ValueType where
  | null
  | number
  | string
  | boolean
  | object
  | array
  | function
  | builtin
deriving DecidableEq, Inhabited

/-- The name of a type in messages. -/
def ValueType.name : ValueType → String
  | .null => "null"
  | .number => "number"
  | .string => "string"
  | .boolean => "boolean"
  | .object => "object"
  | .array => "array"
  | .function => "function"
  | .builtin => "native function"

namespace Value

/-- The type of a value. -/
def type : Value → ValueType
  | .null => .null
  | .number _ => .number
  | .string _ => .string
  | .boolean _ => .boolean
  | .object _ => .object
  | .array _ => .array
  | .function _ => .function
  | .builtin _ => .builtin

/-- The number that a value is, if it is one. -/
def number? : Value → Option Float
  | .number x => some x
  | _ => none

/-- The truth value that a value is, if it is one. -/
def boolean? : Value → Option Bool
  | .boolean b => some b
  | _ => none

end Value

end DialectScript
