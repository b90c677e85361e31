import Typeface.Number.Rounding

/-! Decimals and the numbers nearest to them, and for a positive number the decimal that writes it:
of the decimals that read back to the number the one on the coarsest grid of powers of ten, and of
two on that grid the nearer one, a tie going to the even digits. -/

set_option autoImplicit false

namespace Typeface

/-- The value `digits · 10 ^ exponent`. -/
structure Decimal where
  digits : Nat
  exponent : Int
  deriving DecidableEq, Repr

namespace Decimal

/-- The number nearest to a decimal, with the given sign. The two bounds on the exponent keep a
power of ten from being computed when the result is an infinity or a zero whatever the digits. -/
def toNumber (negative : Bool) (decimal : Decimal) : Number :=
  if decimal.digits = 0 then .zero negative
  else if 1024 ≤ decimal.exponent then .infinite negative
  else if decimal.digits.log2 + 1076 + 3 * decimal.exponent < 0 then .zero negative
  else .ofQuotient negative (decimal.digits * Nat.pow 10 decimal.exponent.toNat)
    (Nat.pow 10 (-decimal.exponent).toNat)

def ReadsBack (value : Dyadic) (decimal : Decimal) : Prop :=
  decimal.toNumber false = .finite value

instance (value : Dyadic) : DecidablePred (ReadsBack value) := fun _ =>
  inferInstanceAs (Decidable (_ = _))

/-- The two multiples of a power of ten around a positive value, the nearer one first. -/
def neighbours (value : Dyadic) (exponent : Int) : List Decimal :=
  let scaled := value.toRat.num.natAbs * Nat.pow 10 (-exponent).toNat
  let unit := value.toRat.den * Nat.pow 10 exponent.toNat
  let below := scaled / unit
  let nearest := roundHalfEven scaled unit
  [⟨nearest, exponent⟩, ⟨if nearest = below then below + 1 else below, exponent⟩]

/-- The grids tried: from just above the leading digit of a value, estimated from its leading bit,
to well past its seventeenth digit. -/
def grids (value : Dyadic) : List Int :=
  let leading := leadingBit value.toRat.num.natAbs value.toRat.den
  let top := leading * 30103 / 100000 + 1
  (List.range 20).map fun (step : Nat) => top - step

/-- All digits of a positive value: one half is five tenths, so a denominator `2 ^ k` becomes
`10 ^ k`. -/
def exact (value : Dyadic) : Decimal :=
  let places := value.toRat.den.log2
  ⟨value.toRat.num.natAbs * Nat.pow 5 places, -places⟩

/-- The shortest decimal that reads back to a positive value. A value that no word holds has none
and is written exactly. -/
def shortest (value : Dyadic) : Decimal :=
  ((grids value).findSome? fun exponent => (neighbours value exponent).find? (ReadsBack value ·)).getD
    (exact value)

end Decimal

end Typeface
