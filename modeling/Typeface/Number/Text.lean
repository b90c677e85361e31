import Typeface.Number.Decimal

/-! The text of a number: the shortest digits that read back, written with a point among zeros while
the leading digit stands at a place from `10 ^ -6` to `10 ^ 20`, otherwise with a signed exponent. -/

set_option autoImplicit false

namespace Typeface

namespace Decimal

def IsPositional (leading : Int) : Prop := -6 ≤ leading ∧ leading ≤ 20

instance : DecidablePred IsPositional := fun _ => inferInstanceAs (Decidable (_ ∧ _))

def positional (digits : String) (leading : Int) : String :=
  let whole := leading.toNat + 1
  if leading < 0 then "0." ++ "".pushn '0' (-leading - 1).toNat ++ digits
  else if digits.length ≤ whole then digits.pushn '0' (whole - digits.length)
  else String.ofList (digits.toList.take whole) ++ "." ++ String.ofList (digits.toList.drop whole)

def scientific (digits : String) (leading : Int) : String :=
  let fraction := digits.toList.drop 1
  let point := if fraction.isEmpty then "" else "."
  let sign := if leading < 0 then "-" else "+"
  String.ofList (digits.toList.take 1) ++ point ++ String.ofList fraction ++ "e" ++ sign ++
    Nat.repr leading.natAbs

def text (decimal : Decimal) : String :=
  let digits := Nat.repr decimal.digits
  let leading := decimal.exponent + digits.length - 1
  if IsPositional leading then positional digits leading else scientific digits leading

end Decimal

/-- The text of a number. A zero shows no sign. -/
def Number.text : Number → String
  | .nan => "NaN"
  | .infinite negative => if negative then "-Infinity" else "Infinity"
  | .negativeZero => "0"
  | .finite value =>
    if value = 0 then "0"
    else if value < 0 then "-" ++ (Decimal.shortest (-value)).text
    else (Decimal.shortest value).text

end Typeface
