import DialectScript.Decimal.Power

/-!
# The shortest decimal of a binary number

A positive binary number `m · 2 ^ q` owns an interval of reals that round to it, half a unit to
either side (a quarter below a power of two), ends included when `m` is even. Its shortest
decimal is the one with the fewest digits in that interval and, among those, the nearest; of two
equally near ones the upper is taken. The decimals with a given number of digits form a grid,
and if any point of the grid lies in the interval, one of the number's two neighbours does.
-/

namespace DialectScript

/-- A positive decimal, `digits · 10 ^ exponent`. -/
structure Decimal where
  digits : Nat
  exponent : Int
deriving DecidableEq

namespace Decimal

/-- The number of digits in which a number is written. -/
def width (n : Nat) : Nat := (Nat.toDigits 10 n).length

/-- A decimal without zeros at the end of its digits; at most `bound` are cut off. -/
def strip (bound : Nat) (d : Decimal) : Decimal :=
  match bound with
  | 0 => d
  | bound + 1 =>
    if d.digits % 10 = 0 then strip bound ⟨d.digits / 10, d.exponent + 1⟩ else d

/-- The exponent of the first digit of `m · 2 ^ q`, for numbers from `2 ^ -1074` on. -/
def magnitude (m : Nat) (q : Int) : Int :=
  width (m * twoTo q.toNat * tenTo 342 / twoTo (-q).toNat) - 343

/-- The unit below a binary64 number, in quarters of the unit above it: two, or one at the
smallest significand of a normal exponent, where the numbers below stand closer. -/
def gapBelow (m : Nat) (q : Int) : Nat := if m = twoTo 52 ∧ -1074 < q then 1 else 2

/-- The grid point with unit `10 ^ e` that stands for `m · 2 ^ q`, if one lies in its interval.
All is measured in a common unit, of which `10 ^ e` is `step` and `2 ^ q` is `scale`. -/
def onGrid? (m : Nat) (q e : Int) : Option Decimal :=
  let scale := twoTo q.toNat * tenTo (-e).toNat
  let step := twoTo (-q).toNat * tenTo e.toNat
  let low := (4 * m - gapBelow m q) * scale
  let high := (4 * m + 2) * scale
  let inside := fun d : Nat =>
    if m % 2 = 0 then low ≤ 4 * d * step ∧ 4 * d * step ≤ high
    else low < 4 * d * step ∧ 4 * d * step < high
  let below := m * scale / step
  if inside below ∧ (¬ inside (below + 1) ∨ 2 * m * scale < (2 * below + 1) * step) then
    some ⟨below, e⟩
  else if inside (below + 1) then some ⟨below + 1, e⟩
  else none

/-- The shortest decimal of `m · 2 ^ q`; seventeen digits are always enough. -/
def shortest (m : Nat) (q : Int) : Decimal :=
  let first := magnitude m q
  match (List.range 17).findSome? fun n : Nat => onGrid? m q (first - n) with
  | some d => d.strip 17
  | none => ⟨m, q⟩

end Decimal

end DialectScript
