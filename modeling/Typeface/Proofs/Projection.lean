import Typeface.Style
import Mathlib.Algebra.Order.Ring.Rat
import Mathlib.Tactic.Linarith
import Mathlib.Tactic.NormNum

/-! Weights as a projection of the number line. A finite number goes to the weight that is nearest to it,
and halfway between two weights to the heavier one. All that is used of it lies in the midpoints: a weight
is nearest to what lies between the midpoints to its two neighbours, so the projection keeps the order, leaves
weights alone, and is bold from the midpoint below the threshold on. -/

set_option autoImplicit false

namespace Typeface

namespace Number

/-- The value of a finite number. Both zeros have the value zero. -/
def value? : Number → Option Rat
  | .finite value => some value.toRat
  | .negativeZero => some 0
  | .nan | .infinite _ => none

/-- The order of the numbers, with the infinities at its two ends and both zeros at one place. What is not
a number has no place in it. -/
inductive AtMost : Number → Number → Prop where
  | least {number : Number} (placed : number ≠ .nan) : AtMost (.infinite true) number
  | greatest {number : Number} (placed : number ≠ .nan) : AtMost number (.infinite false)
  | between {left right : Number} {low high : Rat} (leftValue : left.value? = some low)
      (rightValue : right.value? = some high) (le : low ≤ high) : AtMost left right

end Number

theorem roundHalfUp_bounds (value : Rat) :
    (roundHalfUp value : Rat) ≤ value + 1 / 2 ∧ value + 1 / 2 < roundHalfUp value + 1 := by
  constructor
  · exact Rat.le_floor_iff.mp (Int.le_refl _)
  · have next : roundHalfUp value < roundHalfUp value + 1 := Int.lt_succ _
    rw [roundHalfUp, Rat.floor_lt_iff] at next
    exact_mod_cast next

/-- Of two places, the higher one is as near as the lower one from the middle on. -/
theorem abs_sub_le_abs_sub_iff {low high : Rat} (value : Rat) (lt : low < high) :
    |value - high| ≤ |value - low| ↔ low + high ≤ 2 * value := by
  constructor
  · intro nearer
    by_contra short
    have below : |value - high| = high - value := by
      rw [abs_sub_comm, abs_of_nonneg]
      linarith
    rcases abs_cases (value - low) with ⟨apart, _⟩ | ⟨apart, _⟩ <;> linarith
  · intro past
    have above : |value - low| = value - low := abs_of_nonneg (by linarith)
    rw [above, abs_le]
    constructor <;> linarith

namespace Weight

/-- No weight is nearer to a value, and none that is as near is heavier. -/
structure IsNearest (value : Rat) (weight : Weight) : Prop where
  le : ∀ other : Weight, |value - weight.value| ≤ |value - other.value|
  heaviest : ∀ other : Weight, |value - other.value| = |value - weight.value| →
    other.value ≤ weight.value

section

variable {value greater : Rat} {weight other : Weight}

theorem isNearest_iff :
    IsNearest value weight ↔
      (∀ lighter : Weight, lighter.value < weight.value →
        (lighter.value : Rat) + weight.value ≤ 2 * value) ∧
      ∀ heavier : Weight, weight.value < heavier.value →
        2 * value < (weight.value : Rat) + heavier.value := by
  constructor
  · rintro ⟨le, heaviest⟩
    constructor
    · intro lighter lt
      exact (abs_sub_le_abs_sub_iff value (Nat.cast_lt.mpr lt)).mp (le lighter)
    · intro heavier lt
      by_contra past
      have nearer := (abs_sub_le_abs_sub_iff value (Nat.cast_lt.mpr lt)).mpr (not_lt.mp past)
      exact absurd (heaviest heavier (le_antisymm nearer (le heavier))) (Nat.not_le.mpr lt)
  · rintro ⟨past, short⟩
    have further : ∀ other : Weight, weight.value < other.value →
        |value - weight.value| < |value - other.value| := by
      intro other lt
      rw [← not_le, abs_sub_le_abs_sub_iff value (Nat.cast_lt.mpr lt), not_le]
      exact short other lt
    constructor
    · intro other
      rcases Nat.lt_trichotomy other.value weight.value with lighter | same | heavier
      · exact (abs_sub_le_abs_sub_iff value (Nat.cast_lt.mpr lighter)).mpr (past other lighter)
      · rw [same]
      · exact (further other heavier).le
    · intro other same
      by_contra heavier
      exact absurd same (further other (Nat.not_le.mp heavier)).ne'

theorem IsNearest.value_le (nearest : IsNearest value weight) (nearestGreater : IsNearest greater other)
    (le : value ≤ greater) : weight.value ≤ other.value := by
  by_contra lighter
  rw [Nat.not_le] at lighter
  -- The midpoint of the two would lie below the smaller value and above the greater one.
  have below := (isNearest_iff.mp nearest).1 other lighter
  have above := (isNearest_iff.mp nearestGreater).2 weight lighter
  linarith

theorem isNearest_ofInt_roundHalfUp (value : Rat) : IsNearest value (ofInt (roundHalfUp value)) := by
  obtain ⟨lower, upper⟩ := roundHalfUp_bounds value
  have clamped := value_ofInt (roundHalfUp value)
  rw [isNearest_iff]
  constructor
  · intro lighter lt
    have least := lighter.one_le
    have step : (lighter.value : Int) + (ofInt (roundHalfUp value)).value + 1 ≤
        2 * roundHalfUp value := by omega
    have step : (lighter.value : Rat) + (ofInt (roundHalfUp value)).value + 1 ≤
        2 * roundHalfUp value := by exact_mod_cast step
    linarith
  · intro heavier lt
    have greatest := heavier.le_thousand
    have step : 2 * roundHalfUp value + 1 ≤
        ((ofInt (roundHalfUp value)).value : Int) + heavier.value := by omega
    have step : 2 * (roundHalfUp value : Rat) + 1 ≤
        (ofInt (roundHalfUp value)).value + heavier.value := by exact_mod_cast step
    linarith

theorem IsNearest.boldThreshold_le_iff (nearest : IsNearest value weight) :
    boldThreshold.value ≤ weight.value ↔ 1199 / 2 ≤ value := by
  have threshold : (boldThreshold.value : Rat) = 600 := rfl
  constructor
  · intro bold
    have lighter : ((ofInt 599).value : Rat) = 599 := rfl
    have past := (isNearest_iff.mp nearest).1 (ofInt 599) (Nat.lt_of_lt_of_le (by decide) bold)
    have bold : (boldThreshold.value : Rat) ≤ weight.value := Nat.cast_le.mpr bold
    linarith
  · intro past
    by_contra light
    rw [Nat.not_le] at light
    have short := (isNearest_iff.mp nearest).2 boldThreshold light
    have light : (weight.value : Rat) + 1 ≤ boldThreshold.value := by exact_mod_cast light
    linarith

end

theorem isNearest_ofNumber {number : Number} {value : Rat} (finite : number.value? = some value) :
    IsNearest value (ofNumber number) := by
  cases number with
  | finite exact =>
    cases finite
    exact isNearest_ofInt_roundHalfUp _
  | negativeZero =>
    cases finite
    have rounded : ofInt (roundHalfUp 0) = least := by decide +kernel
    have nearest := isNearest_ofInt_roundHalfUp 0
    rwa [rounded] at nearest
  | nan => cases finite
  | infinite negative => cases finite

theorem value_ofNumber_le {left right : Number} (atMost : left.AtMost right) :
    (ofNumber left).value ≤ (ofNumber right).value := by
  cases atMost with
  | least placed => exact (ofNumber right).one_le
  | greatest placed => exact (ofNumber left).le_thousand
  | between leftValue rightValue le =>
    exact (isNearest_ofNumber leftValue).value_le (isNearest_ofNumber rightValue) le

theorem toNumber_ofNumber_eq_iff {number : Number} :
    (ofNumber number).toNumber = number ↔ ∃ n : Nat, 1 ≤ n ∧ n ≤ 1000 ∧ number = .ofNat n := by
  constructor
  · intro fixed
    exact ⟨(ofNumber number).value, (ofNumber number).one_le, (ofNumber number).le_thousand, fixed.symm⟩
  · rintro ⟨n, least, greatest, rfl⟩
    exact congrArg toNumber (ofNumber_toNumber ⟨n, least, greatest⟩)

end Weight

theorem Style.styleClass_ofNumber (number : Number) (slant : Slant) :
    (ofNumber number slant).styleClass = .ofNumber number slant := by
  simp only [ofNumber, styleClass, StyleClass.ofNumber, Weight.ofNumber_toNumber]

theorem StyleClass.isBold_ofNumber_iff {number : Number} {value : Rat}
    (finite : number.value? = some value) (slant : Slant) :
    (ofNumber number slant).isBold = true ↔ 1199 / 2 ≤ value := by
  rw [ofNumber, isBold_ofFlags, decide_eq_true_iff]
  exact (Weight.isNearest_ofNumber finite).boldThreshold_le_iff

/-- A number is brought to a weight from 1 to 1000, and a finite one to the nearest, the heavier of two that are
as near. What is not a number and what is infinite goes to an end of the range. The order of the numbers is kept,
and exactly the whole numbers from 1 to 1000 stay as they are. Before and after this a number has the same class,
which is bold from 599.5 on. -/
theorem Weight.ofNumber_projects (number : Number) :
    (1 ≤ (ofNumber number).value ∧ (ofNumber number).value ≤ 1000) ∧
      (∀ value, number.value? = some value → IsNearest value (ofNumber number)) ∧
      (ofNumber .nan = least ∧ ofNumber (.infinite true) = least ∧
        ofNumber (.infinite false) = greatest) ∧
      ofNumber (ofNumber number).toNumber = ofNumber number ∧
      (∀ greater, number.AtMost greater → (ofNumber number).value ≤ (ofNumber greater).value) ∧
      ((ofNumber number).toNumber = number ↔ ∃ n : Nat, 1 ≤ n ∧ n ≤ 1000 ∧ number = .ofNat n) ∧
      ∀ slant, (Style.ofNumber number slant).styleClass = StyleClass.ofNumber number slant ∧
        ∀ value, number.value? = some value →
          ((StyleClass.ofNumber number slant).isBold = true ↔ 1199 / 2 ≤ value) := by
  refine ⟨⟨one_le _, le_thousand _⟩, fun value finite => isNearest_ofNumber finite, ⟨rfl, rfl, rfl⟩,
    ofNumber_toNumber _, fun greater atMost => value_ofNumber_le atMost, toNumber_ofNumber_eq_iff, ?_⟩
  intro slant
  exact ⟨Style.styleClass_ofNumber number slant,
    fun value finite => StyleClass.isBold_ofNumber_iff finite slant⟩

theorem Weight.ofNumber_projects_half :
    (Number.finite (.ofIntWithPrec 1199 1)).value? = some (1199 / 2) ∧
      (Number.finite (.ofIntWithPrec 1199 1)).AtMost (.infinite false) ∧
      IsNearest (1199 / 2) (ofNumber (.finite (.ofIntWithPrec 1199 1))) ∧
      (ofNumber (.finite (.ofIntWithPrec 1199 1))).value = 600 ∧
      (ofNumber (.finite (.ofIntWithPrec 1199 1))).value ≤ greatest.value ∧
      (Style.ofNumber (.finite (.ofIntWithPrec 1199 1)) .italic).styleClass = .boldItalic := by
  have finite : (Number.finite (.ofIntWithPrec 1199 1)).value? = some (1199 / 2) := by decide +kernel
  have atMost : (Number.finite (.ofIntWithPrec 1199 1)).AtMost (.infinite false) := .greatest nofun
  obtain ⟨_, nearest, _, _, ordered, _, classified⟩ := ofNumber_projects (.finite (.ofIntWithPrec 1199 1))
  refine ⟨finite, atMost, nearest _ finite, by decide +kernel, ordered _ atMost, ?_⟩
  rw [(classified .italic).1]
  decide +kernel

end Typeface
