import Typeface.Number.Basic

/-! Font weights: the whole numbers from 1 to 1000. Any number is brought to the nearest weight, a
half going up; what is not a number goes to the least weight. -/

set_option autoImplicit false

namespace Typeface

structure Weight where
  value : Nat
  one_le : 1 ≤ value
  le_thousand : value ≤ 1000
  deriving DecidableEq, Repr

namespace Weight

@[ext] theorem ext {left right : Weight} (same : left.value = right.value) : left = right := by
  cases left
  cases right
  simp_all

def least : Weight := ⟨1, by decide, by decide⟩

def greatest : Weight := ⟨1000, by decide, by decide⟩

def normal : Weight := ⟨400, by decide, by decide⟩

def bold : Weight := ⟨700, by decide, by decide⟩

def boldThreshold : Weight := ⟨600, by decide, by decide⟩

def boldStep : Nat := 300

def ofInt (n : Int) : Weight := ⟨(max 1 (min 1000 n)).toNat, by omega, by omega⟩

theorem value_ofInt (n : Int) : ((ofInt n).value : Int) = max 1 (min 1000 n) := by
  simp only [ofInt]
  omega

@[simp] theorem ofInt_value (weight : Weight) : ofInt weight.value = weight := by
  apply ext
  have := weight.one_le
  have := weight.le_thousand
  have := value_ofInt weight.value
  omega

def ofNumber : Number → Weight
  | .nan => least
  | .infinite negative => if negative then least else greatest
  | .negativeZero => least
  | .finite value => ofInt (roundHalfUp value.toRat)

def toNumber (weight : Weight) : Number := .ofNat weight.value

@[simp] theorem ofNumber_ofInt (n : Int) : ofNumber (.ofInt n) = ofInt n := by
  simp [ofNumber, Number.ofInt, Dyadic.toRat_intCast, roundHalfUp_intCast]

@[simp] theorem ofNumber_toNumber (weight : Weight) : ofNumber weight.toNumber = weight := by
  simp [toNumber, Number.ofNat]

/-- The full hundreds of a weight. Two weights of one grade count as equally heavy when variants
are compared. -/
def grade (weight : Weight) : Nat := weight.value / 100

end Weight

end Typeface
