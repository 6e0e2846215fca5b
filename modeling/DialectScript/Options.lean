import DialectScript.Decimal.Numeral
import DialectScript.Dialect

/-!
# Options

The settings of a run, and how they are picked out of a list of arguments. Options start with
two dashes and may stand anywhere; a later one overrides an earlier one of its kind, and the
first bad one is reported.
-/

namespace DialectScript

/-- The settings of a run. -/
structure Options where
  /-- The dialect that scanning starts in. -/
  dialect : Dialect
  /-- How many calls may be active at once. -/
  maxDepth : Nat
deriving DecidableEq

namespace Options

/-- The settings that hold unless options say otherwise. -/
def standard : Options := ⟨.standard, 1000⟩

instance : Inhabited Options := ⟨standard⟩

/-- Why a list of arguments is refused. -/
inductive Problem where
  | unknownDialect (name : String)
  | badDepth (text : String)
  | unknownOption (argument : String)
deriving DecidableEq

/-- The wording of a problem. -/
def Problem.message : Problem → String
  | .unknownDialect name => Dialect.unknownMessage name
  | .badDepth text => s!"invalid --max-depth value '{text}'"
  | .unknownOption argument => s!"unknown option '{argument}'"

/-- The largest depth that can be asked for. -/
def depthLimit : Nat := 18446744073709551615

/-- A depth as an option gives it: digits, with an optional plus sign, for a positive number
within the limit. -/
def depth? (cs : List Char) : Option Nat :=
  let digits := match cs with
    | '+' :: rest => rest
    | cs => cs
  let n := Numeral.ofDigits 0 digits
  if digits.all Char.isDigit && 0 < n && n ≤ depthLimit then some n else none

/-- What an argument is. -/
inductive Argument where
  | dialect (d : Dialect)
  | maxDepth (n : Nat)
  | positional (text : String)
deriving DecidableEq

/-- What follows a given beginning of a text. -/
def after? (start : String) (cs : List Char) : Option (List Char) :=
  if start.toList.isPrefixOf cs then some (cs.drop start.toList.length) else none

/-- Tell options from positional arguments. -/
def Argument.ofString (s : String) : Except Problem Argument :=
  match after? "--dialect=" s.toList with
  | some name =>
    match Dialect.ofName? (.ofList name) with
    | some d => .ok (.dialect d)
    | none => .error (.unknownDialect (.ofList name))
  | none =>
    match after? "--max-depth=" s.toList with
    | some text =>
      match depth? text with
      | some n => .ok (.maxDepth n)
      | none => .error (.badDepth (.ofList text))
    | none =>
      if (after? "--" s.toList).isSome then .error (.unknownOption s) else .ok (.positional s)

/-- Read arguments one after another, starting from given settings. -/
def readFrom (options : Options) : List String → Except Problem (Options × List String)
  | [] => .ok (options, [])
  | s :: rest =>
    match Argument.ofString s with
    | .error p => .error p
    | .ok (.dialect d) => readFrom { options with dialect := d } rest
    | .ok (.maxDepth n) => readFrom { options with maxDepth := n } rest
    | .ok (.positional text) =>
      match readFrom options rest with
      | .error p => .error p
      | .ok (options, positional) => .ok (options, text :: positional)

/-- The settings and the positional arguments of a list of arguments. -/
def read (args : List String) : Except Problem (Options × List String) :=
  readFrom standard args

end Options

end DialectScript
