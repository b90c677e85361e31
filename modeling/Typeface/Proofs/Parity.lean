import Typeface.Proofs.Precedence
import Typeface.Proofs.Projection
import Mathlib.Algebra.Ring.Int.Parity

/-! The raw bits of a table. A number is taken for bits if and only if it is a whole number and not negative, however
great it is, and the bit for italic tells whether it is odd. That bit is looked for in a signed word of 32 bits: to
get there a number loses all multiples of `2 ^ 32`, and becomes negative where the highest bit of the word is set.
Both change it by an even amount. -/

set_option autoImplicit false

namespace Typeface

theorem odd_bmod_iff {modulus : Nat} (even : 2 ∣ modulus) (n : Int) :
    Odd (n.bmod modulus) ↔ Odd n := by
  have cut : (2 : Int) ∣ n.bmod modulus - n :=
    Int.dvd_trans (Int.natCast_dvd_natCast.mpr even) Int.dvd_bmod_sub_self
  rw [Int.odd_iff, Int.odd_iff]
  omega

theorem odd_toInt_ofInt (n : Int) : Odd (Int32.ofInt n).toInt ↔ Odd n := by
  rw [Int32.toInt_ofInt]
  exact odd_bmod_iff (by decide) n

/-- The lowest bit of a word is set if the word is odd, also where its sign bit makes it negative. -/
theorem and_one_ne_zero_iff (word : Int32) : word &&& 1 ≠ 0 ↔ Odd word.toInt := by
  have lowest : (word &&& 1).toBitVec.toNat = word.toBitVec.toNat % 2 := by
    rw [Int32.toBitVec_and, BitVec.toNat_and]
    exact Nat.and_one_is_mod _
  have unsigned : Odd word.toInt ↔ Odd (word.toBitVec.toNat : Int) := by
    rw [← Int32.toInt_toBitVec, BitVec.toInt_eq_toNat_bmod]
    exact odd_bmod_iff (by decide) _
  have zero : (0 : Int32).toBitVec.toNat = 0 := rfl
  rw [Int32.ne_iff_toBitVec_ne, ne_eq, ← BitVec.toNat_inj, lowest, zero, unsigned, Int.odd_coe_nat,
    Nat.odd_iff]
  exact Nat.mod_two_ne_zero

namespace Number

variable {number : Number}

theorem toInt32_of_value? {n : Int} (whole : number.value? = some (n : Rat)) :
    number.toInt32 = .ofInt n := by
  cases number with
  | finite exact =>
    have same : exact = (n : Dyadic) := by
      rw [← Dyadic.toRat_inj, Dyadic.toRat_intCast]
      exact Option.some.inj whole
    rw [same]
    exact toInt32_ofInt n
  | negativeZero =>
    have zero : n = 0 := by exact_mod_cast (Option.some.inj whole).symm
    rw [zero]
    rfl
  | nan => cases whole
  | infinite negative => cases whole

theorem value?_ofNat (n : Nat) : (ofNat n).value? = some (n : Rat) := by
  simp [value?, ofNat, ofInt, Dyadic.toRat_intCast]

end Number

namespace SelectionField

variable {bits : Number}

theorem defects_eq_nil_iff : defects bits = [] ↔ ∃ n : Nat, bits.value? = some (n : Rat) := by
  cases bits with
  | finite exact =>
    have sign : exact < 0 ↔ exact.toRat.num < 0 := by
      rw [Rat.num_neg, ← Dyadic.toRat_zero, Dyadic.toRat_lt_toRat_iff]
    simp only [defects, Number.toInt?, Number.isNegative, Number.value?, Option.some.injEq,
      List.append_eq_nil_iff, decide_eq_true_iff, sign]
    constructor
    · rintro ⟨integral, natural⟩
      have integral : exact.toRat.den = 1 := by
        by_contra fractional
        simp [fractional] at integral
      have natural : 0 ≤ exact.toRat.num := by
        by_contra negative
        simp [not_le.mp negative] at natural
      refine ⟨exact.toRat.num.toNat, ?_⟩
      rw [← (Rat.den_eq_one_iff _).mp integral]
      exact_mod_cast (Int.toNat_of_nonneg natural).symm
    · rintro ⟨n, whole⟩
      simp [whole]
  | negativeZero => exact iff_of_true rfl ⟨0, by simp [Number.value?]⟩
  | nan => simp [defects, Number.toInt?, Number.value?]
  | infinite negative => simp [defects, Number.toInt?, Number.value?]

theorem decode_number_ok_iff {field : SelectionField} :
    decode (.number bits) = .ok field ↔
      (∃ n : Nat, bits.value? = some (n : Rat)) ∧ field = .bits bits := by
  rw [← defects_eq_nil_iff]
  by_cases nan : bits = .nan
  · simp [decode, nan, defects, Number.toInt?]
  · by_cases clean : defects bits = []
    · simp [decode, nan, clean, eq_comm]
    · simp [decode, nan, clean]

theorem italic?_bits {n : Nat} (whole : bits.value? = some (n : Rat)) :
    (SelectionField.bits bits).italic? = some (decide (Odd n)) := by
  have word : bits.toInt32 = .ofInt n := Number.toInt32_of_value? (by exact_mod_cast whole)
  have lowest : (bits.toInt32 &&& 1 != 0) = decide (Odd n) := by
    rw [Bool.eq_iff_iff, bne_iff_ne, decide_eq_true_iff, and_one_ne_zero_iff, word, odd_toInt_ofInt,
      Int.odd_coe_nat]
  exact congrArg some lowest

end SelectionField

namespace StyleTable

variable {value : Value} {bits : Number} {table : StyleTable}

def WeightFits (value : Value) : Prop :=
  value.member "usWeightClass" = .absent ∨
    ∃ weight, weight ≠ .nan ∧ value.member "usWeightClass" = .number weight

theorem exists_decode_iff_of_bits (raw : value.member "fsSelection" = .number bits) :
    (∃ table, decode value = .ok table) ↔
      WeightFits value ∧ ∃ n : Nat, bits.value? = some (n : Rat) := by
  have object : value.kind = .object := by
    obtain ⟨members, rfl⟩ := Value.exists_members_of_member (by rw [raw]; nofun)
    rfl
  have selects : (∃ field, Decoder.optional SelectionField.decode (value.member "fsSelection") =
      .ok field) ↔ ∃ n : Nat, bits.value? = some (n : Rat) := by
    rw [Decoder.exists_optional_ok_iff SelectionField.decode_absent_ne_ok, raw]
    simp only [SelectionField.decode_number_ok_iff, exists_and_left, exists_eq, and_true,
      reduceCtorEq, false_or]
  rw [← selects]
  constructor
  · rintro ⟨table, accepted⟩
    obtain ⟨_, weight, selection⟩ := decode_ok_iff.mp accepted
    exact ⟨Decoder.exists_optional_number_iff.mp ⟨_, weight⟩, _, selection⟩
  · rintro ⟨fits, field, selection⟩
    obtain ⟨weight, weighs⟩ := Decoder.exists_optional_number_iff.mpr fits
    exact ⟨⟨weight, field⟩, decode_ok_iff.mpr ⟨object, weighs, selection⟩⟩

theorem selection_of_bits (accepted : decode value = .ok table)
    (raw : value.member "fsSelection" = .number bits) : table.selection = some (.bits bits) := by
  obtain ⟨_, _, selection⟩ := decode_ok_iff.mp accepted
  rw [raw] at selection
  obtain ⟨absent, _⟩ | ⟨field, decoded, same⟩ :=
    (Decoder.optional_ok_iff SelectionField.decode_absent_ne_ok).mp selection
  · cases absent
  · rw [← same, (SelectionField.decode_number_ok_iff.mp decoded).2]

theorem italic?_of_bits (accepted : decode value = .ok table)
    (raw : value.member "fsSelection" = .number bits) {n : Nat}
    (whole : bits.value? = some (n : Rat)) :
    table.italic? = some (decide (Odd n)) := by
  rw [italic?, selection_of_bits accepted raw]
  exact SelectionField.italic?_bits whole

end StyleTable

theorem Slant.ofItalic_eq_italic_iff {italic : Bool} : ofItalic italic = .italic ↔ italic = true := by
  cases italic <;> simp [ofItalic]

namespace Engine

/-- A table with a number for its bits is accepted exactly if this is a whole number that is not negative, and the
weight fits. Then every face with that table is read, and as italic exactly if the number is odd, whatever the
names and the angle of the face are. -/
theorem readVariant_italic_iff_odd {table : Value} {bits : Number}
    (raw : table.member "fsSelection" = .number bits) :
    ((∃ decoded, StyleTable.decode table = .ok decoded) ↔
      StyleTable.WeightFits table ∧ ∃ n : Nat, bits.value? = some (n : Rat)) ∧
    ∀ n : Nat, bits.value? = some (n : Rat) → ∀ decoded, StyleTable.decode table = .ok decoded →
      ∀ value font face, Face.decode value = .ok face → value.member "OS/2" = table →
        Face.GivenBy value font → ∀ (engine : Engine) (fileName : String),
          ∃ variant, (engine.readVariant fileName (.ok font)).1 = .ok variant ∧
            (variant.style.slant = .italic ↔ Odd n) := by
  refine ⟨StyleTable.exists_decode_iff_of_bits raw, ?_⟩
  intro n whole decoded accepted value font face opened tabled given engine fileName
  have told := StyleTable.italic?_of_bits accepted raw whole
  rw [← tabled] at accepted
  obtain ⟨variant, _, reads, _, slanted⟩ := reads_byTable opened accepted given engine fileName
  refine ⟨variant, reads.result, ?_⟩
  rw [slanted _ told, Slant.ofItalic_eq_italic_iff, decide_eq_true_iff]

def bitTable (bits : Number) : Value := .object [("fsSelection", .number bits)]

def bitFace (subfamily : String) (angle : Int) (bits : Number) : Value :=
  .object [("subfamilyName", .string subfamily), ("italicAngle", .number (.ofInt angle)),
    ("OS/2", bitTable bits)]

/-- An odd number that is negative as a word. -/
def signedBits : Nat := 2 ^ 32 + 2 ^ 31 + 1

/-- An even number of which nothing is left in a word. -/
def lostBits : Nat := 2 ^ 60

def signedCollection : Value := .object [("fonts", .array [bitFace "Regular" 0 (.ofNat signedBits)])]

def lostFace : Value := bitFace "Oblique" (-12) (.ofNat lostBits)

def strayBits : List Number := [.ofInt (-1), .finite (.ofIntWithPrec 3 1), .infinite false, .nan]

theorem readVariant_italic_iff_odd_wrapped :
    ((Number.ofNat signedBits).toInt32.toInt = -2 ^ 31 + 1 ∧ (Number.ofNat lostBits).toInt32 = 0) ∧
      (∀ n ∈ [signedBits, lostBits],
        (bitTable (.ofNat n)).member "fsSelection" = .number (.ofNat n) ∧
        (Number.ofNat n).value? = some (n : Rat) ∧
        ∃ decoded, StyleTable.decode (bitTable (.ofNat n)) = .ok decoded) ∧
      (∃ variant, (initial.readVariant "Signed.ttc" (.ok signedCollection)).1 = .ok variant ∧
        variant.style.slant = .italic) ∧
      (∃ variant, (initial.readVariant "Lost.ttf" (.ok lostFace)).1 = .ok variant ∧
        variant.style.slant ≠ .italic) ∧
      ∀ bits ∈ strayBits, ¬ ∃ decoded, StyleTable.decode (bitTable bits) = .ok decoded := by
  have raw (bits : Number) : (bitTable bits).member "fsSelection" = .number bits := rfl
  have whole (n : Nat) := Number.value?_ofNat n
  have accepted (n : Nat) : ∃ decoded, StyleTable.decode (bitTable (.ofNat n)) = .ok decoded :=
    (readVariant_italic_iff_odd (raw _)).1.mpr ⟨.inl rfl, n, whole n⟩
  have opened (subfamily : String) (angle : Int) (bits : Number) :
      ∃ face, Face.decode (bitFace subfamily angle bits) = .ok face := ⟨_, rfl⟩
  refine ⟨by decide +kernel, fun n _ => ⟨raw _, whole n, accepted n⟩, ?_, ?_, ?_⟩
  · obtain ⟨decoded, table⟩ := accepted signedBits
    obtain ⟨face, upright⟩ := opened "Regular" 0 (.ofNat signedBits)
    have given : Face.GivenBy (bitFace "Regular" 0 (.ofNat signedBits)) signedCollection := .first [] rfl
    obtain ⟨variant, read, italic⟩ := (readVariant_italic_iff_odd (raw _)).2 signedBits (whole _)
      decoded table _ _ face upright rfl given initial "Signed.ttc"
    exact ⟨variant, read, italic.mpr (by decide)⟩
  · obtain ⟨decoded, table⟩ := accepted lostBits
    obtain ⟨face, slanted⟩ := opened "Oblique" (-12) (.ofNat lostBits)
    obtain ⟨variant, read, italic⟩ := (readVariant_italic_iff_odd (raw _)).2 lostBits (whole _)
      decoded table _ _ face slanted rfl (.alone rfl rfl) initial "Lost.ttf"
    exact ⟨variant, read, fun leaning => absurd (italic.mp leaning) (by decide)⟩
  · intro bits stray found
    have unfit : ∀ bits ∈ strayBits, SelectionField.defects bits ≠ [] := by decide +kernel
    obtain ⟨_, natural⟩ := (readVariant_italic_iff_odd (raw bits)).1.mp found
    exact unfit bits stray (SelectionField.defects_eq_nil_iff.mpr natural)

end Engine

end Typeface
