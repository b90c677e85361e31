import Typeface.Proofs.Lowering
import Typeface.Proofs.Trimming
import Typeface.Settings

/-! Whole numbers as texts. Digits to some base are read from the left, each step of which multiplies what was
read by the base, so the value read is that of the digits from the right; zeros in front do not count, and
the mark in front of the digits tells the base. A whole number of at most 53 bits is held by a word as it
is, and a text that is no numeral in ASCII is no numeral. -/

set_option autoImplicit false

namespace Typeface

namespace Numeral

inductive Radix where
  | binary
  | octal
  | decimal
  | hexadecimal
  deriving DecidableEq, Repr

namespace Radix

def base : Radix → Nat
  | .binary => 2
  | .octal => 8
  | .decimal => 10
  | .hexadecimal => 16

def mark : Radix → List Char
  | .binary => ['0', 'b']
  | .octal => ['0', 'o']
  | .decimal => []
  | .hexadecimal => ['0', 'x']

/-- The text has the mark of the base and digits that have the value of the number, the leading one first, with
letters in either case. -/
def Writes (radix : Radix) (text : List Char) (n : Nat) : Prop :=
  ∃ digits : List Nat, digits ≠ [] ∧ (∀ digit ∈ digits, digit < radix.base) ∧
    Nat.ofDigits radix.base digits.reverse = n ∧
    text.map Char.toLower = radix.mark ++ digits.map Nat.digitChar

theorem base_le (radix : Radix) : radix.base ≤ 16 := by cases radix <;> decide

end Radix

section

variable {base start n : Nat} {digits : List Nat}

theorem digit?_digitChar {digit : Nat} (small : digit < base) (le : base ≤ 16) :
    digit? base (Nat.digitChar digit) = some digit := by
  have limit : digit < 16 := Nat.lt_of_lt_of_le small le
  interval_cases digit <;> simp [digit?, Nat.digitChar, small]

theorem accumulate?_digits (small : ∀ digit ∈ digits, digit < base) (le : base ≤ 16) :
    accumulate? base start (digits.map Nat.digitChar) =
      some (start * base ^ digits.length + Nat.ofDigits base digits.reverse) := by
  -- What was read before is carried along, so the induction is for any start.
  induction digits generalizing start with
  | nil => simp [accumulate?]
  | cons digit rest ih =>
    have smaller : ∀ later ∈ rest, later < base := fun later member => small later (.tail _ member)
    rw [List.map_cons, accumulate?, digit?_digitChar (small digit List.mem_cons_self) le,
      Option.bind_some, ih smaller, List.reverse_cons, Nat.ofDigits_append, List.length_reverse,
      Nat.ofDigits_singleton, List.length_cons]
    congr 1
    ring

theorem natural?_digits (nonempty : digits ≠ []) (small : ∀ digit ∈ digits, digit < base)
    (le : base ≤ 16) :
    natural? base (digits.map Nat.digitChar) = some (Nat.ofDigits base digits.reverse) := by
  have present : (digits.map Nat.digitChar).isEmpty = false := by
    rwa [List.isEmpty_map, List.isEmpty_eq_false_iff]
  rw [natural?, present, if_neg Bool.false_ne_true, accumulate?_digits small le, Nat.zero_mul,
    Nat.zero_add]

end

section

variable {text : List Char}

theorem signed_of_isDigit (digits : ∀ character ∈ text, character.isDigit = true) :
    signed text = (false, text) := by
  unfold signed
  split
  case h_1 => exact absurd (digits '-' List.mem_cons_self) (by decide)
  case h_2 => exact absurd (digits '+' List.mem_cons_self) (by decide)
  case h_3 => rfl

theorem decimal?_of_isDigit (digits : ∀ character ∈ text, character.isDigit = true) :
    decimal? text = (natural? 10 text).map (Decimal.toNumber false ⟨·, 0⟩) := by
  have whole : text.span Char.isDigit = (text, []) := by
    rw [List.span_eq_takeWhile_dropWhile, List.takeWhile_eq_self_iff.mpr digits,
      List.dropWhile_eq_nil_iff.mpr digits]
  simp only [decimal?, signed_of_isDigit digits, whole, fraction, exponent?, List.append_nil,
    List.length_nil]
  cases natural? 10 text <;> rfl

theorem read?_of_isDigit (digits : ∀ character ∈ text, character.isDigit = true) :
    read? text = decimal? text := by
  unfold read?
  split
  case h_1 => exact absurd (digits 'x' (.tail _ List.mem_cons_self)) (by decide)
  case h_2 => exact absurd (digits 'o' (.tail _ List.mem_cons_self)) (by decide)
  case h_3 => exact absurd (digits 'b' (.tail _ List.mem_cons_self)) (by decide)
  case h_4 => rfl

end

theorem read?_mark (radix : Radix) {digits : List Nat} (small : ∀ digit ∈ digits, digit < radix.base) :
    read? (radix.mark ++ digits.map Nat.digitChar) =
      (natural? radix.base (digits.map Nat.digitChar)).map (Decimal.toNumber false ⟨·, 0⟩) := by
  cases radix with
  | binary => rfl
  | octal => rfl
  | hexadecimal => rfl
  | decimal =>
    have isDigit : ∀ character ∈ digits.map Nat.digitChar, character.isDigit = true := by
      intro character member
      obtain ⟨digit, own, rfl⟩ := List.mem_map.mp member
      rw [Nat.isDigit_digitChar, decide_eq_true_iff]
      exact small digit own
    exact (read?_of_isDigit isDigit).trans (decimal?_of_isDigit isDigit)

end Numeral

theorem Decimal.toNumber_whole {n : Nat} (positive : 0 < n) (bounded : n ≤ 2 ^ 53) :
    toNumber false ⟨n, 0⟩ = .ofNat n := by
  -- The bound itself has a bit too many for the general case, all of them zeros but the first.
  rcases Nat.lt_or_eq_of_le bounded with short | rfl
  · have bits : n.log2 ≤ 52 := by
      have := (Nat.log2_lt (Nat.pos_iff_ne_zero.mp positive)).mpr short
      omega
    have near : ¬ ((n.log2 : Int) + 1076 + 3 * 0 < 0) := by omega
    have same : n * Nat.pow 10 (0 : Int).toNat = n := Nat.mul_one n
    have one : Nat.pow 10 (-(0 : Int)).toNat = 1 := rfl
    rw [toNumber, if_neg (Nat.pos_iff_ne_zero.mp positive), if_neg (show ¬ (1024 : Int) ≤ 0 by decide),
      if_neg near, same, one]
    exact Number.ofQuotient_one positive bits
  · decide +kernel

namespace Numeral

namespace Radix.Writes

variable {radix : Radix} {text : List Char} {n : Nat}

theorem read? (writes : radix.Writes text n) (positive : 0 < n) (bounded : n ≤ 2 ^ 53) :
    read? (text.map Char.toLower) = some (.ofNat n) := by
  obtain ⟨digits, nonempty, small, value, spelled⟩ := writes
  rw [spelled, read?_mark radix small, natural?_digits nonempty small radix.base_le, value,
    Option.map_some, Decimal.toNumber_whole positive bounded]

theorem isAlphanum (writes : radix.Writes text n) : ∀ character ∈ text, character.isAlphanum = true := by
  obtain ⟨digits, _, small, _, spelled⟩ := writes
  have marks : radix.mark.all Char.isAlphanum = true := by cases radix <;> rfl
  have letters : ∀ digit < 16, (Nat.digitChar digit).isAlphanum = true := by decide
  intro character member
  have lowered : character.toLower.isAlphanum = true := by
    have inside := List.mem_map_of_mem (f := Char.toLower) member
    rw [spelled, List.mem_append] at inside
    rcases inside with own | own
    · exact List.all_eq_true.mp marks _ own
    · obtain ⟨digit, ownDigit, same⟩ := List.mem_map.mp own
      rw [← same]
      exact letters digit (Nat.lt_of_lt_of_le (small digit ownDigit) radix.base_le)
  -- Only capitals are changed in lower case.
  by_cases capital : character.isUpper = true
  · rw [Char.isAlphanum, Char.isAlpha, capital, Bool.true_or, Bool.true_or]
  · rwa [Char.toLower_eq_of_not_isUpper capital] at lowered

end Radix.Writes

section

variable {base start value : Nat} {character : Char} {text : List Char}

theorem toNat_lt_of_digit? (read : digit? base character = some value) : character.toNat < 128 := by
  simp only [digit?, Option.ite_none_right_eq_some] at read
  have atMost (last : Char) (le : character ≤ last) : character.toNat ≤ last.toNat := le
  split_ifs at read with digit letter
  · exact Nat.lt_of_le_of_lt (atMost '9' digit.2) (by decide)
  · exact Nat.lt_of_le_of_lt (atMost 'z' letter.2) (by decide)
  · exact absurd read.1 (Nat.lt_irrefl base)

theorem asciiOnly_accumulate? : Text.AsciiOnly (accumulate? base start) := by
  intro text
  induction text generalizing start with
  | nil => exact fun _ _ => List.forall_mem_nil _
  | cons character rest ih =>
    intro value read
    obtain ⟨digit, readDigit, readRest⟩ := Option.bind_eq_some_iff.mp read
    exact Text.isAscii_cons.mpr ⟨toNat_lt_of_digit? readDigit, ih value readRest⟩

theorem asciiOnly_natural? : Text.AsciiOnly (natural? base) := by
  intro text value read
  rw [natural?, Option.ite_none_left_eq_some] at read
  exact asciiOnly_accumulate? text value read.2

theorem exists_sign (text : List Char) : ∃ sign, Text.IsAscii sign ∧ text = sign ++ (signed text).2 := by
  unfold signed
  split
  case h_1 rest => exact ⟨['-'], by decide, rfl⟩
  case h_2 rest => exact ⟨['+'], by decide, rfl⟩
  case h_3 => exact ⟨[], by decide, rfl⟩

theorem exists_point (text : List Char) :
    ∃ point, Text.IsAscii point ∧ text = point ++ (fraction text).1 ++ (fraction text).2 := by
  unfold fraction
  split
  case h_1 rest =>
    refine ⟨['.'], by decide, ?_⟩
    rw [List.span_eq_takeWhile_dropWhile, List.append_assoc, List.takeWhile_append_dropWhile]
    rfl
  case h_2 => exact ⟨[], by decide, rfl⟩

theorem asciiOnly_integer? : Text.AsciiOnly integer? := by
  intro text value read
  obtain ⟨sign, ascii, split⟩ := exists_sign text
  cases found : natural? 10 (signed text).2 with
  | none => simp [integer?, found] at read
  | some digits =>
    rw [split, Text.isAscii_append]
    exact ⟨ascii, asciiOnly_natural? _ digits found⟩

theorem asciiOnly_exponent? : Text.AsciiOnly exponent? := by
  intro text value read
  unfold exponent? at read
  split at read
  case h_1 => exact List.forall_mem_nil _
  case h_2 rest => exact Text.isAscii_cons.mpr ⟨by decide, asciiOnly_integer? rest value read⟩
  case h_3 => cases read

theorem asciiOnly_decimal? : Text.AsciiOnly decimal? := by
  intro text value read
  -- Sign and point are not among what is read as digits or as an exponent, so they are looked at apart.
  simp only [decimal?, List.span_eq_takeWhile_dropWhile, Option.bind_eq_some_iff,
    Option.map_eq_some_iff] at read
  obtain ⟨digits, readDigits, exponent, readExponent, _⟩ := read
  obtain ⟨sign, signAscii, signSplit⟩ := exists_sign text
  obtain ⟨point, pointAscii, pointSplit⟩ := exists_point ((signed text).2.dropWhile Char.isDigit)
  have digitsAscii := Text.isAscii_append.mp (asciiOnly_natural? _ digits readDigits)
  have exponentAscii := asciiOnly_exponent? _ exponent readExponent
  rw [signSplit, ← List.takeWhile_append_dropWhile (p := Char.isDigit) (l := (signed text).2), pointSplit]
  simp only [Text.isAscii_append]
  exact ⟨signAscii, digitsAscii.1, ⟨pointAscii, digitsAscii.2⟩, exponentAscii⟩

theorem asciiOnly_read? : Text.AsciiOnly read? := by
  intro text value read
  have marked (mark : List Char) (base : Nat) (digits : List Char) (ascii : Text.IsAscii mark)
      (read : (natural? base digits).map (Decimal.toNumber false ⟨·, 0⟩) = some value) :
      Text.IsAscii (mark ++ digits) := by
    obtain ⟨natural, readNatural, _⟩ := Option.map_eq_some_iff.mp read
    exact Text.isAscii_append.mpr ⟨ascii, asciiOnly_natural? digits natural readNatural⟩
  unfold read? at read
  split at read
  case h_1 digits => exact marked ['0', 'x'] 16 digits (by decide) read
  case h_2 digits => exact marked ['0', 'o'] 8 digits (by decide) read
  case h_3 digits => exact marked ['0', 'b'] 2 digits (by decide) read
  case h_4 => exact asciiOnly_decimal? text value read

end

end Numeral

namespace Settings

/-- The text is a numeral, and its number is a positive integer, namely this one. -/
def DenotesCapacity (text : List Char) (count : Nat) : Prop :=
  ∃ number, Numeral.read? text = some number ∧ number.toInt? = some (count : Int) ∧ 0 < count

theorem capacity?_eq_some_iff (text : List Char) (count : Nat) :
    capacity? text = some count ↔ DenotesCapacity text count := by
  simp only [capacity?, DenotesCapacity, Option.bind_eq_some_iff, Option.ite_none_right_eq_some,
    Option.some.injEq]
  constructor
  · rintro ⟨integer, ⟨number, read, integral⟩, positive, rfl⟩
    refine ⟨number, read, ?_, by omega⟩
    rw [integral, Int.toNat_of_nonneg (Int.le_of_lt positive)]
  · rintro ⟨number, read, integral, positive⟩
    exact ⟨count, ⟨number, read, integral⟩, by omega, Int.toNat_natCast count⟩

theorem plainText_of_isAlphanum {before bare after : List Char}
    (blank : ∀ character ∈ before ++ after, Text.isBlank character = true)
    (alphanumeric : ∀ character ∈ bare, character.isAlphanum = true) :
    plainText (String.ofList (before ++ bare ++ after)) = bare.map Char.toLower := by
  have strips : Text.Strips (before ++ bare ++ after) bare := by
    refine ⟨⟨before, after, rfl, blank⟩, ?_, ?_⟩
    · intro character first
      exact Text.isBlank_eq_false_of_isAlphanum (alphanumeric character (List.mem_of_head? first))
    · intro character last
      exact Text.isBlank_eq_false_of_isAlphanum (alphanumeric character (List.mem_of_getLast? last))
  have ascii : Text.IsAscii bare := fun character member =>
    Text.toNat_lt_of_isAlphanum (alphanumeric character member)
  rw [plainText, String.toList_ofList, strips.trim_eq, ascii.lower_eq]

/-- A capacity that is written to any base, with blanks around it, is the capacity of the log. -/
theorem logCapacity_of_writes (environment : Environment) {radix : Numeral.Radix}
    {before bare after : List Char} {n : Nat} (writes : radix.Writes bare n) (positive : 0 < n)
    (bounded : n ≤ 2 ^ 53) (blank : ∀ character ∈ before ++ after, Text.isBlank character = true)
    (assigned : environment logCapacityVariable = some (String.ofList (before ++ bare ++ after))) :
    (ofEnvironment environment).logCapacity = n := by
  have plain := plainText_of_isAlphanum blank writes.isAlphanum
  have found : capacity? (bare.map Char.toLower) = some n := by
    rw [capacity?_eq_some_iff]
    exact ⟨.ofNat n, writes.read? positive bounded, Number.toInt?_ofInt n, positive⟩
  simp only [ofEnvironment, choose, assigned, Option.bind_some, plain, found, Option.getD_some]

/-- The largest such capacity, to the base 16, after a tab and before a space that does not break. -/
theorem logCapacity_of_writes_limit :
    Numeral.Radix.hexadecimal.Writes "0X0020000000000000".toList (2 ^ 53) ∧
      (ofEnvironment (Environment.assign (fun _ => none) logCapacityVariable
        (some "\t0X0020000000000000\u00A0"))).logCapacity = 2 ^ 53 := by
  have writes : Numeral.Radix.hexadecimal.Writes "0X0020000000000000".toList (2 ^ 53) :=
    ⟨[0, 0, 2, 0, 0, 0, 0, 0, 0, 0, 0, 0, 0, 0, 0, 0], by decide, by decide, by decide, rfl⟩
  have blank : ∀ character ∈ ['\t'] ++ ['\u00A0'], Text.isBlank character = true := by
    rw [← List.all_eq_true]
    rfl
  exact ⟨writes, logCapacity_of_writes _ writes (by decide) (by decide) blank rfl⟩

end Settings

end Typeface
