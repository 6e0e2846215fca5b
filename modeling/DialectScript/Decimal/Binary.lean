import DialectScript.Decimal.Power

/-!
# Binary64 numbers taken apart

A finite binary64 number is `± significand · 2 ^ exponent`; `Binary.ofFloat` reads the parts off
the bits, and everything exact is done with them in integer arithmetic: whether a number is
whole, and the remainder of a division.
-/

namespace DialectScript

/-- A binary64 number by its parts. -/
inductive Binary where
  | nan
  | infinite (negative : Bool)
  | finite (negative : Bool) (significand : Nat) (exponent : Int)
deriving DecidableEq

namespace Binary

/-- The parts of a number, read off its bits. -/
def ofFloat (x : Float) : Binary :=
  let bits := x.toBits.toNat
  let negative := bits / twoTo 63 == 1
  let biased : Nat := bits / twoTo 52 % twoTo 11
  let fraction : Nat := bits % twoTo 52
  if biased = 2047 then
    if fraction = 0 then .infinite negative else .nan
  else if biased = 0 then .finite negative fraction (-1074)
  else .finite negative (fraction + twoTo 52) (biased - 1075)

/-- The number with given parts, for a significand below `2 ^ 53` and an exponent of at least
`-1074`. -/
def toFloat (negative : Bool) (significand : Nat) (exponent : Int) : Float :=
  let sign := if negative then twoTo 63 else 0
  let spare := 52 - significand.log2
  let magnitude :=
    if significand = 0 then 0
    else if exponent - spare < -1074 then significand * twoTo (exponent + 1074).toNat
    else (exponent - spare + 1075).toNat * twoTo 52 + (significand * twoTo spare - twoTo 52)
  .ofBits (sign + magnitude).toUInt64

/-- The whole number that a number is equal to; both zeros are zero. -/
def natural? : Binary → Option Nat
  | .finite negative significand exponent =>
    if significand = 0 then some 0
    else if negative then none
    else if 0 ≤ exponent then some (significand * twoTo exponent.toNat)
    else if significand % twoTo (-exponent).toNat = 0 then
      some (significand / twoTo (-exponent).toNat)
    else none
  | _ => none

/-- The remainder of the division of two numbers whose quotient is cut towards zero. It has the
sign of the dividend, and it is exact. -/
def remainder (x y : Float) : Float :=
  match ofFloat x, ofFloat y with
  | .finite negative m q, .finite _ m' q' =>
    if m' = 0 then 0.0 / 0.0
    else
      let exponent := if q ≤ q' then q else q'
      toFloat negative (m * twoTo (q - exponent).toNat % (m' * twoTo (q' - exponent).toNat))
        exponent
  | .finite .., .infinite _ => x
  | _, _ => 0.0 / 0.0

end Binary

end DialectScript
