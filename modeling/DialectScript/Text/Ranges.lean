/-!
# Character ranges

Character properties of the Unicode standard are kept as lists of ranges of code points.
-/

namespace DialectScript.Text

/-- Whether a character lies in one of the ranges, ends included. -/
def inRanges (ranges : List (Nat × Nat)) (c : Char) : Bool :=
  ranges.any fun r => r.1 ≤ c.toNat && c.toNat ≤ r.2

end DialectScript.Text
