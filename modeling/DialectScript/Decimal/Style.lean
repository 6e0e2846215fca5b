import DialectScript.Decimal.Binary
import DialectScript.Decimal.Shortest

/-!
# Writing numbers

A number is written with the digits of its shortest decimal. A `NumberStyle` makes the
remaining choices: the words for what is not finite, the sign of a negative zero, whether a
whole number keeps a fraction digit, and which magnitudes are written with an exponent.
-/

namespace DialectScript

/-- The choices in writing a number. -/
structure NumberStyle where
  nan : String
  infinity : String
  /-- Whether a negative zero shows its sign. -/
  signedZero : Bool
  /-- Whether a whole number is written with `.0`. -/
  pointed : Bool
  /-- The exponents of the first digit for which a number is written positionally. -/
  positional : Int → Bool

namespace NumberStyle

/-- How scripts see a number: positional always, and zero without a sign. -/
def script : NumberStyle := ⟨"NaN", "Infinity", false, false, fun _ => true⟩

/-- How messages and inspections show a number. -/
def message : NumberStyle := ⟨"NaN", "inf", true, false, fun _ => true⟩

/-- How a number stands in an outline of a syntax tree: positional from `1e-4` up to `1e16`. -/
def outline : NumberStyle := ⟨"NaN", "inf", true, true, fun k => -4 ≤ k && k < 16⟩

/-- Digits of which `exponent` decimal places are still to come, written positionally. -/
def writePositional (style : NumberStyle) (ds : List Char) (exponent : Int) : List Char :=
  let point := ds.length + exponent
  if 0 ≤ exponent then
    ds ++ List.replicate exponent.toNat '0' ++ (if style.pointed then ['.', '0'] else [])
  else if 0 < point then ds.take point.toNat ++ '.' :: ds.drop point.toNat
  else '0' :: '.' :: List.replicate (-point).toNat '0' ++ ds

/-- Digits with a point behind the first and an exponent. -/
def writeScientific (ds : List Char) (first : Int) : List Char :=
  let mantissa := match ds with
    | d :: e :: rest => d :: '.' :: e :: rest
    | short => short
  let sign := if first < 0 then ['-'] else []
  mantissa ++ 'e' :: sign ++ Nat.toDigits 10 first.natAbs

/-- A finite number, without its sign. -/
def writeMagnitude (style : NumberStyle) (significand : Nat) (exponent : Int) : List Char :=
  if significand = 0 then writePositional style ['0'] 0
  else
    let d := Decimal.shortest significand exponent
    let ds := Nat.toDigits 10 d.digits
    let first := d.exponent + ds.length - 1
    if style.positional first then writePositional style ds d.exponent
    else writeScientific ds first

/-- The text of a number. -/
def write (style : NumberStyle) (x : Float) : String :=
  match Binary.ofFloat x with
  | .nan => style.nan
  | .infinite negative => if negative then "-" ++ style.infinity else style.infinity
  | .finite negative m q =>
    let magnitude := style.writeMagnitude m q
    .ofList (if negative && (m != 0 || style.signedZero) then '-' :: magnitude else magnitude)

end NumberStyle

end DialectScript
