import Typeface.Number.Basic

/-! Rounding to a binary64 word: a quotient of natural numbers goes to the nearest value that has at
most 53 significant bits and no bit below the smallest subnormal, a tie goes to the even
significand, and what passes the largest finite value becomes an infinity. -/

set_option autoImplicit false

namespace Typeface

/-- The integer nearest to a quotient; a half goes to the even neighbour. -/
def roundHalfEven (numerator denominator : Nat) : Nat :=
  let below := numerator / denominator
  let twice := 2 * (numerator % denominator)
  if twice < denominator ∨ (twice = denominator ∧ below % 2 = 0) then below else below + 1

theorem roundHalfEven_mul (n : Nat) {denominator : Nat} (positive : 0 < denominator) :
    roundHalfEven (n * denominator) denominator = n := by
  simp [roundHalfEven, positive]

def leadingBit (numerator denominator : Nat) : Int :=
  let guess : Int := numerator.log2 - denominator.log2
  if numerator <<< (-guess).toNat < denominator <<< guess.toNat then guess - 1 else guess

theorem leadingBit_one {n : Nat} (positive : 0 < n) : leadingBit n 1 = n.log2 := by
  have below : ¬ n < 1 <<< n.log2 := by
    rw [Nat.one_shiftLeft]
    exact Nat.not_lt.2 (Nat.log2_self_le (Nat.pos_iff_ne_zero.1 positive))
  simp only [leadingBit, show Nat.log2 1 = 0 from rfl]
  simp [below]

/-- The exponent of the last bit that a word can hold near a positive quotient. -/
def lastBit (numerator denominator : Nat) : Int := max (leadingBit numerator denominator - 52) (-1074)

namespace Number

def ofQuotient (negative : Bool) (numerator denominator : Nat) : Number :=
  let last := lastBit numerator denominator
  let significand :=
    roundHalfEven (numerator <<< (-last).toNat) (denominator <<< last.toNat)
  if significand = 0 then zero negative
  else if 1024 ≤ significand.log2 + last then .infinite negative
  else .finite (.ofIntWithPrec (if negative then -significand else significand) (-last))

theorem ofQuotient_one {n : Nat} (positive : 0 < n) (short : n.log2 ≤ 52) :
    ofQuotient false n 1 = ofNat n := by
  obtain ⟨places, total⟩ : ∃ places : Nat, n.log2 + places = 52 := ⟨52 - n.log2, by omega⟩
  have last : lastBit n 1 = -(places : Int) := by
    simp only [lastBit, leadingBit_one positive]
    omega
  have exact : roundHalfEven (n <<< places) 1 = n <<< places := by
    simpa using roundHalfEven_mul (n <<< places) (show 0 < 1 by decide)
  have shifted : n <<< places ≠ 0 := by
    rw [Nat.shiftLeft_eq]
    exact Nat.mul_ne_zero (Nat.pos_iff_ne_zero.1 positive) (Nat.pos_iff_ne_zero.1 (Nat.two_pow_pos places))
  have inside : ¬ (1024 : Int) ≤ (n <<< places).log2 + -(places : Int) := by
    have grown : n < 2 ^ (n.log2 + 1) := Nat.lt_log2_self
    have bounded : n <<< places < 2 ^ 53 := by
      rw [Nat.shiftLeft_eq, show 53 = (n.log2 + 1) + places by omega, Nat.pow_add]
      exact Nat.mul_lt_mul_of_pos_right grown (Nat.two_pow_pos places)
    have := (Nat.log2_lt shifted).2 bounded
    omega
  have restored := @Dyadic.ofIntWithPrec_shiftLeft_add n 0 places
  simp only [Int.zero_add] at restored
  simp only [ofQuotient, last, Int.neg_neg, Int.toNat_natCast, Int.toNat_neg_natCast,
    Nat.shiftLeft_zero, exact, shifted, inside, if_false, Bool.false_eq_true]
  rw [ofNat, ofInt, Int.natCast_shiftLeft, restored]
  rfl

def round (value : Dyadic) : Number :=
  ofQuotient (value < 0) value.toRat.num.natAbs value.toRat.den

/-- Subtraction, rounded. Equal finite numbers have the difference zero without a minus sign. -/
protected def sub : Number → Number → Number
  | .nan, _ | _, .nan => .nan
  | .infinite left, .infinite right => if left = right then .nan else .infinite left
  | .infinite left, _ => .infinite left
  | _, .infinite right => .infinite !right
  | .negativeZero, .negativeZero => .finite 0
  | .negativeZero, .finite right => if right = 0 then .negativeZero else round (-right)
  | .finite left, .negativeZero => round left
  | .finite left, .finite right => round (left - right)

instance : Sub Number := ⟨Number.sub⟩

end Number

end Typeface
