/-!
# Powers of two and ten

Binary and decimal scales as whole numbers.
-/

namespace DialectScript

/-- The power of two with the given exponent. -/
def twoTo (n : Nat) : Nat := Nat.pow 2 n

/-- The power of ten with the given exponent. -/
def tenTo (n : Nat) : Nat := Nat.pow 10 n

end DialectScript
