/-!
# Reading decimal numerals

A numeral is an optional sign, digits with an optional point among or around them (at least one
digit in all), and an optional exponent. `Numeral.value?` gives the nearest binary64 number,
and nothing if the text is no numeral or the number is too large to be finite.
-/

namespace DialectScript

/-- A decimal numeral: `± digits · 10 ^ exponent`. -/
structure Numeral where
  negative : Bool
  digits : Nat
  exponent : Int
deriving DecidableEq

namespace Numeral

/-- The number that a run of digits denotes, read after a number already formed. -/
def ofDigits (start : Nat) (cs : List Char) : Nat :=
  cs.foldl (fun n c => 10 * n + (c.toNat - '0'.toNat)) start

/-- A sign at the head of a text, and what follows it. -/
def sign : List Char → Bool × List Char
  | '-' :: cs => (true, cs)
  | '+' :: cs => (false, cs)
  | cs => (false, cs)

/-- The fraction digits after an optional point, and what follows them. -/
def fraction : List Char → List Char × List Char
  | '.' :: cs => (cs.takeWhile Char.isDigit, cs.dropWhile Char.isDigit)
  | cs => ([], cs)

/-- The exponent that is the whole rest of a numeral: nothing, or a mark, an optional sign and
digits. -/
def exponent? : List Char → Option Int
  | [] => some 0
  | c :: cs =>
    let (negative, digits) := sign cs
    if (c == 'e' || c == 'E') && !digits.isEmpty && digits.all Char.isDigit then
      some (if negative then -(ofDigits 0 digits : Int) else ofDigits 0 digits)
    else none

/-- Read a whole text as a numeral. -/
def read? (cs : List Char) : Option Numeral :=
  let (negative, body) := sign cs
  let whole := body.takeWhile Char.isDigit
  let (places, tail) := fraction (body.dropWhile Char.isDigit)
  if whole.isEmpty && places.isEmpty then none
  else
    (exponent? tail).map fun e =>
      ⟨negative, ofDigits (ofDigits 0 whole) places, e - places.length⟩

/-- The number of decimal digits of a number, leading zeros apart. -/
def digitCount (n : Nat) : Nat := if n = 0 then 0 else n.log2 * 30103 / 100000 + 1

/-- The nearest binary64 number. Exponents beyond every finite number, on either side, are
settled before any power of ten is formed. -/
def toFloat (x : Numeral) : Float :=
  let magnitude : Float :=
    if x.digits = 0 then 0.0
    else if x.exponent + digitCount x.digits < -400 then 0.0
    else if 400 < x.exponent + digitCount x.digits then 1.0 / 0.0
    else .ofScientific x.digits (x.exponent < 0) x.exponent.natAbs
  if x.negative then -magnitude else magnitude

/-- The finite number that a text denotes, if it is a numeral and denotes one. -/
def value? (s : String) : Option Float :=
  match read? s.toList with
  | none => none
  | some x => if x.toFloat.isFinite then some x.toFloat else none

end Numeral

end DialectScript
