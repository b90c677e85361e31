/-! Numbers as untyped data, clocks and texts carry them: exact binary fractions, a zero that keeps
its minus sign, two infinities, and a datum that is not a number. Every finite number is exact here;
rounding to what a binary64 word can hold is a separate step. -/

set_option autoImplicit false

namespace Typeface

/-- A numeric datum. The zero without a minus sign is `finite 0`. -/
inductive Number where
  | nan
  | infinite (negative : Bool)
  | negativeZero
  | finite (value : Dyadic)
  deriving DecidableEq

namespace Number

def ofInt (n : Int) : Number := .finite n

def ofNat (n : Nat) : Number := ofInt n

instance : Inhabited Number := ⟨ofInt 0⟩

def zero (negative : Bool) : Number := if negative then .negativeZero else .finite 0

/-- The integer that a number is, if it is one. Both zeros are the integer zero. -/
def toInt? : Number → Option Int
  | .finite value => if value.toRat.den = 1 then some value.toRat.num else none
  | .negativeZero => some 0
  | .nan | .infinite _ => none

@[simp] theorem toInt?_ofInt (n : Int) : (ofInt n).toInt? = some n := by
  simp [toInt?, ofInt, Dyadic.toRat_intCast]

/-- The bits of a number that bitwise operations work on: the lowest 32 of its integer part, as a
signed word. What is not finite has none set. -/
def toInt32 : Number → Int32
  | .finite value => .ofInt (value.toRat.num.tdiv value.toRat.den)
  | .nan | .infinite _ | .negativeZero => 0

@[simp] theorem toInt32_ofInt (n : Int) : (ofInt n).toInt32 = .ofInt n := by
  simp [toInt32, ofInt, Dyadic.toRat_intCast]

/-- Below zero. A zero with a minus sign is not, nor is a datum that is not a number. -/
def isNegative : Number → Bool
  | .infinite negative => negative
  | .finite value => value < 0
  | .nan | .negativeZero => false

def isZero : Number → Bool
  | .finite value => value == 0
  | .negativeZero => true
  | .nan | .infinite _ => false

end Number

/-- The integer nearest to an exact value; a half goes up. -/
def roundHalfUp (value : Rat) : Int := (value + 1 / 2).floor

theorem roundHalfUp_intCast (n : Int) : roundHalfUp n = n := by
  apply Int.le_antisymm
  · apply Int.le_of_lt_add_one
    rw [roundHalfUp, Rat.floor_lt_iff, Rat.intCast_add]
    exact Rat.add_lt_add_left.2 (by decide +kernel)
  · rw [roundHalfUp, Rat.le_floor_iff]
    have := (Rat.add_le_add_left (c := (n : Rat))).2 (show (0 : Rat) ≤ 1 / 2 by decide +kernel)
    rwa [Rat.add_zero] at this

end Typeface
