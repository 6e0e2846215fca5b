import Mathlib
import DialectScript.Decimal.Binary

/-!
# What numbers are equal to

Arithmetic unpacks a binary64 number into a sign, a mantissa and an exponent, and what a number is
equal to is said of these (`Binary.rational?`).

* `Binary.ofFloat_eq` — the parts that are read off the bits of a number are the unpacked ones.
* `Binary.natural?_ofFloat_eq_some_iff` — **the whole number that they give is the one that the
  number is equal to**.
* `Binary.beq_symm`, `Binary.beq_trans`, `Binary.beq_self` — the comparison of numbers is symmetric
  and transitive, and only what is no number differs from itself. Both follow from what equal
  numbers are (`Binary.beq_eq_true_iff`): both zeros, or the same unpacked.
-/

namespace DialectScript

open Float.Model (Format UnpackedFloat)
open Float.Model.UnpackedFloat (Sign)

namespace Binary

/-! ## Unpacked numbers -/

def isNegative : Sign → Bool
  | .negative => true
  | .positive => false

/-- The parts of an unpacked number. -/
def ofUnpacked : UnpackedFloat → Binary
  | .notANumber => .nan
  | .infinity sign => .infinite (isNegative sign)
  | .zero sign => .finite (isNegative sign) 0 (-1074)
  | .finite sign mantissa exponent _ => .finite (isNegative sign) mantissa exponent

section

variable (bits : BitVec Format.binary64.numBits)

theorem toNat_unpackMantissa :
    (UnpackedFloat.unpackMantissa bits).toNat = bits.toNat % twoTo 52 := by
  simp [UnpackedFloat.unpackMantissa, twoTo]

theorem toNat_unpackExponent :
    (UnpackedFloat.unpackExponent bits).toNat = bits.toNat / twoTo 52 % twoTo 11 := by
  simp [UnpackedFloat.unpackExponent, twoTo, Nat.shiftRight_eq_div_pow]

theorem toNat_unpackSign : (UnpackedFloat.unpackSign bits).toNat = bits.toNat / twoTo 63 := by
  have hlt : bits.toNat < 2 ^ 64 := bits.isLt
  simp only [UnpackedFloat.unpackSign, twoTo, BitVec.toNat_cast, BitVec.extractLsb_toNat,
    Nat.shiftRight_eq_div_pow]
  exact Nat.mod_eq_of_lt (Nat.div_lt_of_lt_mul hlt)

theorem isNegative_unpackSign :
    isNegative (Sign.ofBitVec (UnpackedFloat.unpackSign bits)) =
      (bits.toNat / twoTo 63 == 1) := by
  rw [← toNat_unpackSign]
  generalize UnpackedFloat.unpackSign bits = sign
  revert sign
  decide

/-- The leading bit of a normal number is not stored. -/
theorem toNat_append_unpackMantissa :
    (1#1 ++ UnpackedFloat.unpackMantissa bits).toNat = bits.toNat % twoTo 52 + twoTo 52 := by
  rw [BitVec.toNat_append,
    ← Nat.shiftLeft_add_eq_or_of_lt (UnpackedFloat.unpackMantissa bits).isLt,
    toNat_unpackMantissa, Nat.add_comm]
  rfl

theorem ofUnpacked_unpack :
    ofUnpacked (UnpackedFloat.unpack Format.binary64 bits) =
      if bits.toNat / twoTo 52 % twoTo 11 = 2047 then
        if bits.toNat % twoTo 52 = 0 then .infinite (bits.toNat / twoTo 63 == 1) else .nan
      else if bits.toNat / twoTo 52 % twoTo 11 = 0 then
        .finite (bits.toNat / twoTo 63 == 1) (bits.toNat % twoTo 52) (-1074)
      else
        .finite (bits.toNat / twoTo 63 == 1) (bits.toNat % twoTo 52 + twoTo 52)
          ((bits.toNat / twoTo 52 % twoTo 11 : Nat) - 1075) := by
  have hones : UnpackedFloat.unpackExponent bits = -1#11 ↔
      bits.toNat / twoTo 52 % twoTo 11 = 2047 := by
    rw [← toNat_unpackExponent, ← BitVec.toNat_inj]
    rfl
  have hzeros : UnpackedFloat.unpackExponent bits = 0#11 ↔
      bits.toNat / twoTo 52 % twoTo 11 = 0 := by
    rw [← toNat_unpackExponent, ← BitVec.toNat_inj]
    rfl
  have hnone : UnpackedFloat.unpackMantissa bits = 0#52 ↔ bits.toNat % twoTo 52 = 0 := by
    rw [← toNat_unpackMantissa, ← BitVec.toNat_inj]
    rfl
  simp only [UnpackedFloat.unpack, ← isNegative_unpackSign, ← hones, ← hzeros, ← hnone]
  by_cases hmax : UnpackedFloat.unpackExponent bits = -1#11
  · rw [if_pos hmax, if_pos hmax]
    split <;> rfl
  · rw [if_neg hmax, if_neg hmax]
    by_cases hmin : UnpackedFloat.unpackExponent bits = 0#11
    · rw [if_pos hmin, if_pos hmin, ← toNat_unpackMantissa, hmin]
      split
      · next hzero =>
        rw [hzero]
        rfl
      · rfl
    · rw [if_neg hmin, if_neg hmin, ofUnpacked, toNat_append_unpackMantissa, toNat_unpackExponent]
      rfl

end

/-- The parts that are read off the bits of a number are those that arithmetic works with. -/
theorem ofFloat_eq (x : Float) : ofFloat x = ofUnpacked x.toModel.unpack :=
  (ofUnpacked_unpack x.toBits.toBitVec).symm

/-! ## The value of a number -/

/-- The rational number that a number is equal to. Infinite numbers and what is no number have
none. -/
def rational? (x : Float) : Option ℚ :=
  match x.toModel.unpack with
  | .zero _ => some 0
  | .finite sign mantissa exponent _ => some (sign.apply mantissa * 2 ^ exponent)
  | .infinity _ => none
  | .notANumber => none

theorem rational?_eq_none_iff (x : Float) :
    rational? x = none ↔ x.isNaN = true ∨ x.isInf = true := by
  unfold rational? Float.isNaN Float.isInf Float.Model.isNaN Float.Model.isInf
  cases x.toModel.unpack <;> simp [UnpackedFloat.isNaN, UnpackedFloat.isInf]

theorem natural?_finite_eq_some_iff {mantissa : Nat} (hm : 0 < mantissa) (exponent : Int)
    (i : Nat) :
    (finite false mantissa exponent).natural? = some i ↔ (mantissa : ℚ) * 2 ^ exponent = i := by
  simp only [natural?, Nat.ne_of_gt hm, if_false, Bool.false_eq_true]
  by_cases he : 0 ≤ exponent
  · obtain ⟨k, rfl⟩ := Int.eq_ofNat_of_zero_le he
    rw [if_pos he, zpow_natCast, Int.toNat_natCast, Option.some.injEq, twoTo]
    norm_cast
  · obtain ⟨k, hk⟩ := Int.eq_ofNat_of_zero_le (Int.le_of_lt (Int.neg_pos_of_neg (Int.not_le.1 he)))
    have hdiv : (mantissa : ℚ) * 2 ^ exponent = i ↔ mantissa = i * 2 ^ k := by
      rw [← Int.neg_neg exponent, hk, zpow_neg, zpow_natCast,
        mul_inv_eq_iff_eq_mul₀ (by positivity)]
      norm_cast
    rw [if_neg he, hdiv, hk, Int.toNat_natCast, twoTo, Nat.pow_eq]
    constructor
    · intro h
      split at h
      · next hmod =>
        cases h
        exact (Nat.div_mul_cancel (Nat.dvd_of_mod_eq_zero hmod)).symm
      · cases h
    · rintro rfl
      rw [Nat.mul_mod_left, if_pos rfl, Nat.mul_div_cancel _ (Nat.two_pow_pos k)]

/-- The whole number that the parts of a number give is the one that the number is equal to. -/
theorem natural?_ofFloat_eq_some_iff (x : Float) (i : Nat) :
    (ofFloat x).natural? = some i ↔ rational? x = some (i : ℚ) := by
  rw [ofFloat_eq, rational?]
  match x.toModel.unpack with
  | .notANumber | .infinity _ => exact ⟨nofun, nofun⟩
  | .zero sign =>
    have hzero : (0 : ℚ) = i ↔ 0 = i := by norm_cast
    simp only [ofUnpacked, natural?, if_true, Option.some.injEq, hzero]
  | .finite .positive mantissa exponent hm =>
    dsimp only
    rw [Option.some.injEq]
    exact natural?_finite_eq_some_iff hm exponent i
  | .finite .negative mantissa exponent hm =>
    -- A negative number is below every index.
    have hlt : (Sign.apply .negative mantissa : ℚ) * 2 ^ exponent < i := by
      have hmantissa : (0 : ℚ) < mantissa := by exact_mod_cast hm
      have hpos : (0 : ℚ) < mantissa * 2 ^ exponent := by positivity
      rw [Sign.apply, Int.cast_neg, neg_mul]
      exact (neg_neg_of_pos hpos).trans_le (Nat.cast_nonneg i)
    dsimp only
    rw [Option.some.injEq]
    exact ⟨fun h => by simp [ofUnpacked, natural?, isNegative, Nat.ne_of_gt hm] at h,
      fun h => absurd h hlt.ne⟩

/-! ## Equal numbers -/

theorem compare_eq_some_eq_iff (a b : UnpackedFloat) :
    a.compare b = some .eq ↔
      (∃ sign sign', a = .zero sign ∧ b = .zero sign') ∨ (a = b ∧ a ≠ .notANumber) := by
  have hself (sign : Sign) : compare sign sign = .eq := by cases sign <;> rfl
  cases a with
  | notANumber => simp [UnpackedFloat.compare]
  | zero sign =>
    cases b with
    | notANumber | zero _ => simp [UnpackedFloat.compare]
    | infinity sign' | finite sign' _ _ _ => cases sign' <;> simp [UnpackedFloat.compare]
  | infinity sign =>
    cases b with
    | infinity sign' => cases sign <;> cases sign' <;> simp [UnpackedFloat.compare, hself]
    | notANumber | zero _ | finite _ _ _ _ => cases sign <;> simp [UnpackedFloat.compare]
  | finite sign m e hm =>
    cases b with
    | notANumber | zero _ => cases sign <;> simp [UnpackedFloat.compare]
    | infinity sign' => cases sign <;> cases sign' <;> simp [UnpackedFloat.compare]
    | finite sign' m' e' hm' =>
      cases sign <;> cases sign' <;> simp [UnpackedFloat.compare, and_comm]

/-- Numbers are equal if both are zeros, or if they are the same once they are unpacked. -/
theorem beq_eq_true_iff (x y : Float) :
    (x == y) = true ↔
      (∃ sign sign', x.toModel.unpack = .zero sign ∧ y.toModel.unpack = .zero sign') ∨
        (x.toModel.unpack = y.toModel.unpack ∧ x.toModel.unpack ≠ .notANumber) := by
  rw [← compare_eq_some_eq_iff]
  show (x.toModel.unpack.compare y.toModel.unpack == some .eq) = true ↔ _
  exact beq_iff_eq

theorem beq_symm {x y : Float} (h : (x == y) = true) : (y == x) = true := by
  rw [beq_eq_true_iff] at h ⊢
  rcases h with ⟨sign, sign', hx, hy⟩ | ⟨hxy, hx⟩
  · exact .inl ⟨sign', sign, hy, hx⟩
  · exact .inr ⟨hxy.symm, hxy ▸ hx⟩

theorem beq_trans {x y z : Float} (h : (x == y) = true) (h' : (y == z) = true) :
    (x == z) = true := by
  rw [beq_eq_true_iff] at h h' ⊢
  rcases h with ⟨sign, sign', hx, hy⟩ | ⟨hxy, hx⟩
  · rcases h' with ⟨_, sign'', -, hz⟩ | ⟨hyz, -⟩
    · exact .inl ⟨sign, sign'', hx, hz⟩
    · exact .inl ⟨sign, sign', hx, hyz ▸ hy⟩
  · rw [hxy] at hx ⊢
    rcases h' with hzeros | ⟨hyz, -⟩
    · exact .inl hzeros
    · exact .inr ⟨hyz, hx⟩

/-- Only what is no number differs from itself. -/
theorem beq_self {x : Float} (hx : x.isNaN = false) : (x == x) = true := by
  rw [beq_eq_true_iff]
  refine .inr ⟨rfl, fun hnan => ?_⟩
  rw [Float.isNaN, Float.Model.isNaN, hnan] at hx
  cases hx

end Binary

end DialectScript
