import Typeface.Number.Decimal

/-! Numerals as a setting may spell them, in lower case: digits to the base 16, 8 or 2 after `0x`,
`0o` or `0b`, without a sign; or a decimal with an optional sign, point and exponent. -/

set_option autoImplicit false

namespace Typeface.Numeral

/-- The value of a digit, letters counting from ten. -/
def digit? (base : Nat) (character : Char) : Option Nat :=
  let value :=
    if '0' ≤ character ∧ character ≤ '9' then character.toNat - '0'.toNat
    else if 'a' ≤ character ∧ character ≤ 'z' then character.toNat - 'a'.toNat + 10
    else base
  if value < base then some value else none

def accumulate? (base : Nat) (start : Nat) : List Char → Option Nat
  | [] => some start
  | character :: rest =>
    (digit? base character).bind fun value => accumulate? base (start * base + value) rest

def natural? (base : Nat) (text : List Char) : Option Nat :=
  if text.isEmpty then none else accumulate? base 0 text

def signed : List Char → Bool × List Char
  | '-' :: rest => (true, rest)
  | '+' :: rest => (false, rest)
  | text => (false, text)

def integer? (text : List Char) : Option Int :=
  let (negative, digits) := signed text
  (natural? 10 digits).map fun value => if negative then -value else value

def exponent? : List Char → Option Int
  | [] => some 0
  | 'e' :: rest => integer? rest
  | _ => none

/-- The digits after a point, which may be missing together with the point, and what follows. -/
def fraction : List Char → List Char × List Char
  | '.' :: rest => rest.span Char.isDigit
  | text => ([], text)

def decimal? (text : List Char) : Option Number :=
  let (negative, rest) := signed text
  let (whole, rest) := rest.span Char.isDigit
  let (part, rest) := fraction rest
  (natural? 10 (whole ++ part)).bind fun digits =>
    (exponent? rest).map fun exponent =>
      Decimal.toNumber negative ⟨digits, exponent - part.length⟩

def read? : List Char → Option Number
  | '0' :: 'x' :: digits => (natural? 16 digits).map (Decimal.toNumber false ⟨·, 0⟩)
  | '0' :: 'o' :: digits => (natural? 8 digits).map (Decimal.toNumber false ⟨·, 0⟩)
  | '0' :: 'b' :: digits => (natural? 2 digits).map (Decimal.toNumber false ⟨·, 0⟩)
  | text => decimal? text

end Typeface.Numeral
