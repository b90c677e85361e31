import Mathlib
import Typeface.Text

/-! Lower case in all scripts. A full lower-casing knows many more letters, but it leaves blanks where they are,
and what it makes of letters of other scripts stays outside ASCII; so what looks for words, blanks or numerals in
ASCII cannot tell it from the one that is used here. Nor does it matter whether the capitals of ASCII were
made small before, except that the two characters from outside that become ASCII letters can then take part
in a word; there are words in which they cannot. -/

set_option autoImplicit false

namespace Typeface.Text

def IsAscii (text : List Char) : Prop := ∀ character ∈ text, character.toNat < 128

instance (text : List Char) : Decidable (IsAscii text) :=
  decidable_of_iff (text.all fun character => character.toNat < 128) (by simp [IsAscii])

section

variable {left right text : List Char} {character : Char}

@[simp] theorem isAscii_append : IsAscii (left ++ right) ↔ IsAscii left ∧ IsAscii right :=
  List.forall_mem_append

@[simp] theorem isAscii_cons : IsAscii (character :: text) ↔ character.toNat < 128 ∧ IsAscii text :=
  List.forall_mem_cons

theorem exists_ofNat_eq (ascii : character.toNat < 128) : ∃ code < 128, Char.ofNat code = character :=
  ⟨character.toNat, ascii, Char.ofNat_toNat character⟩

theorem toNat_lt_of_isAlphanum (alphanumeric : character.isAlphanum = true) :
    character.toNat < 128 := by
  simp only [Char.isAlphanum, Char.isAlpha, Char.isUpper, Char.isLower, Char.isDigit, Bool.or_eq_true,
    Bool.and_eq_true, decide_eq_true_eq, UInt32.le_iff_toNat_le, ge_iff_le, Char.toNat_val] at alphanumeric
  have : 'Z'.toNat = 90 := rfl
  have : 'z'.toNat = 122 := rfl
  have : '9'.toNat = 57 := rfl
  omega

theorem isBlank_eq_false_of_isAlphanum (alphanumeric : character.isAlphanum = true) :
    isBlank character = false := by
  have all : ∀ code < 128, (Char.ofNat code).isAlphanum = true → isBlank (Char.ofNat code) = false := by
    decide
  obtain ⟨code, bound, rfl⟩ := exists_ofNat_eq (toNat_lt_of_isAlphanum alphanumeric)
  exact all code bound alphanumeric

theorem IsAscii.lower_eq (ascii : IsAscii text) : lower text = text.map Char.toLower := by
  have all : ∀ code < 128, lowerChar (Char.ofNat code) = [(Char.ofNat code).toLower] := by decide
  induction text with
  | nil => rfl
  | cons character rest ih =>
    rw [isAscii_cons] at ascii
    obtain ⟨code, bound, rfl⟩ := exists_ofNat_eq ascii.1
    rw [lower_cons, all code bound, ih ascii.2, List.map_cons, List.singleton_append]

end

/-- Characters outside ASCII count as one, except that each blank counts as itself. -/
def coarse (character : Char) : Char :=
  if character.toNat < 128 ∨ isBlank character then character else '\uFFFD'

/-- What a lower-casing of all scripts has in common with the one for ASCII: they differ only in which
characters outside ASCII stand at the same places, and not in blanks. -/
def IsLowering (fold : List Char → List Char) : Prop :=
  ∀ text, (fold text).map coarse = (lower text).map coarse

theorem isLowering_lower : IsLowering lower := fun _ => rfl

section

variable {left right word text : List Char} {character : Char}

theorem coarse_eq_self (ascii : character.toNat < 128) : coarse character = character :=
  if_pos (.inl ascii)

theorem coarse_eq_self_of_ascii (ascii : (coarse character).toNat < 128) :
    coarse character = character := by
  unfold coarse at ascii ⊢
  split at ascii
  case isTrue kept => rw [if_pos kept]
  case isFalse => exact absurd ascii (by decide)

theorem coarse_eq_iff {mark : Char} (ascii : mark.toNat < 128) :
    coarse character = mark ↔ character = mark := by
  constructor
  · rintro rfl
    exact (coarse_eq_self_of_ascii ascii).symm
  · rintro rfl
    exact coarse_eq_self ascii

theorem isBlank_coarse (character : Char) : isBlank (coarse character) = isBlank character := by
  unfold coarse
  split
  case isTrue => rfl
  case isFalse other =>
    rw [not_or, Bool.not_eq_true] at other
    rw [other.2]
    decide

theorem IsAscii.map_coarse (ascii : IsAscii text) : text.map coarse = text := by
  conv => rhs; rw [← List.map_id text]
  exact List.map_congr_left fun character member => coarse_eq_self (ascii character member)

theorem IsAscii.eq_of_map_coarse (ascii : IsAscii word) (same : text.map coarse = word) :
    text = word := by
  rw [← same]
  conv => lhs; rw [← List.map_id text]
  apply List.map_congr_left
  intro character member
  apply Eq.symm
  apply coarse_eq_self_of_ascii
  apply ascii
  rw [← same]
  exact List.mem_map_of_mem member

theorem IsAscii.infix_map_coarse_iff (ascii : IsAscii word) :
    word <:+: text.map coarse ↔ word <:+: text := by
  constructor
  · rintro ⟨before, after, split⟩
    obtain ⟨front, behind, rfl, frontSame, _⟩ := List.map_eq_append_iff.mp split.symm
    obtain ⟨ahead, middle, rfl, _, middleSame⟩ := List.map_eq_append_iff.mp frontSame
    rw [ascii.eq_of_map_coarse middleSame]
    exact List.infix_append ahead word behind
  · intro inside
    have mapped := inside.map coarse
    rwa [ascii.map_coarse] at mapped

/-- All that the reader accepts is in ASCII. -/
def AsciiOnly {α : Type} (read? : List Char → Option α) : Prop :=
  ∀ text value, read? text = some value → IsAscii text

theorem AsciiOnly.congr {α : Type} {read? : List Char → Option α} (only : AsciiOnly read?)
    (same : left.map coarse = right.map coarse) : read? left = read? right := by
  cases found : read? left with
  | some value =>
    have ascii := only left value found
    rw [ascii.eq_of_map_coarse (same.symm.trans ascii.map_coarse), found]
  | none =>
    cases other : read? right with
    | none => rfl
    | some value =>
      have ascii := only right value other
      rw [ascii.eq_of_map_coarse (same.trans ascii.map_coarse), other] at found
      cases found

theorem AsciiOnly.fold_eq {α : Type} {read? : List Char → Option α} (only : AsciiOnly read?)
    {fold : List Char → List Char} (lowering : IsLowering fold) (text : List Char) :
    read? (fold text) = read? (lower text) := only.congr (lowering text)

end

theorem lowerChar_toLower (character : Char) : lowerChar character.toLower = lowerChar character := by
  -- A capital is neither of the two special characters, nor is what it becomes.
  by_cases capital : character.isUpper = true
  · have small : character.toLower.isLower = true := by
      rw [Char.isLower_toLower_eq_isAlpha, Char.isAlpha, capital, Bool.true_or]
    have notKelvin : character ≠ '\u212A' ∧ character.toLower ≠ '\u212A' := by
      constructor <;> intro same <;> simp [same] at capital small
    have notDotted : character ≠ '\u0130' ∧ character.toLower ≠ '\u0130' := by
      constructor <;> intro same <;> simp [same] at capital small
    simp only [lowerChar, notKelvin.1, notKelvin.2, notDotted.1, notDotted.2, if_false,
      Char.toLower_toLower_eq_toLower]
  · rw [Char.toLower_eq_of_not_isUpper capital]

theorem lower_map_toLower (text : List Char) : lower (text.map Char.toLower) = lower text := by
  induction text with
  | nil => rfl
  | cons character rest ih => rw [List.map_cons, lower_cons, lower_cons, lowerChar_toLower, ih]

/-- A word in which no letter can come from a character outside ASCII: the letter that the Kelvin sign becomes
is not in it, and where the letter is that the dotted capital becomes, another letter follows, not the dot. -/
def Unforgeable (word : List Char) : Prop :=
  (∀ character ∈ word, character ≠ 'k' ∧ character ≠ '\u0307') ∧ word.getLast? ≠ some 'i'

instance (word : List Char) : Decidable (Unforgeable word) :=
  decidable_of_iff
    ((word.all fun character => character ≠ 'k' ∧ character ≠ '\u0307') ∧ word.getLast? ≠ some 'i')
    (by simp [Unforgeable])

section

variable {word text : List Char} {character head : Char}

theorem Unforgeable.tail (unforgeable : Unforgeable (head :: word)) : Unforgeable word := by
  refine ⟨fun character member => unforgeable.1 character (.tail _ member), ?_⟩
  cases word with
  | nil => simp
  | cons next rest =>
    have last := unforgeable.2
    rwa [List.getLast?_cons_cons] at last

theorem lowerChar_cases (small : character.toLower = character) :
    lowerChar character = ['k'] ∨ lowerChar character = ['i', '\u0307'] ∨
      lowerChar character = [character] := by
  unfold lowerChar
  split
  case isTrue => exact .inl rfl
  case isFalse =>
    split
    case isTrue => exact .inr (.inl rfl)
    case isFalse => exact .inr (.inr (by rw [small]))

theorem Unforgeable.prefix_of_prefix_lower (unforgeable : Unforgeable word)
    (small : ∀ character ∈ text, character.toLower = character) (begins : word <+: lower text) :
    word <+: text := by
  -- A character that is not left alone becomes a `k`, which is in no such word, or an `i` with a dot, which
  -- would have to be the last letter.
  induction text generalizing word with
  | nil => exact begins
  | cons character rest ih =>
    cases word with
    | nil => exact List.nil_prefix
    | cons letter letters =>
      rw [lower_cons] at begins
      rcases lowerChar_cases (small character List.mem_cons_self) with kelvin | dotted | own
      · rw [kelvin, List.singleton_append, List.cons_prefix_cons] at begins
        exact absurd begins.1 (unforgeable.1 letter List.mem_cons_self).1
      · rw [dotted, List.cons_append, List.singleton_append, List.cons_prefix_cons] at begins
        obtain ⟨rfl, later⟩ := begins
        cases letters with
        | nil => exact absurd rfl unforgeable.2
        | cons next others =>
          rw [List.cons_prefix_cons] at later
          exact absurd later.1 (unforgeable.1 next (.tail _ List.mem_cons_self)).2
      · rw [own, List.singleton_append, List.cons_prefix_cons] at begins
        obtain ⟨rfl, later⟩ := begins
        rw [List.cons_prefix_cons]
        exact ⟨rfl, ih unforgeable.tail (fun other member => small other (.tail _ member)) later⟩

theorem Unforgeable.infix_of_infix_lower (unforgeable : Unforgeable word)
    (small : ∀ character ∈ text, character.toLower = character) (inside : word <:+: lower text) :
    word <:+: text := by
  induction text with
  | nil => exact inside
  | cons character rest ih =>
    have later (inside : word <:+: lower rest) : word <:+: character :: rest :=
      List.infix_cons (ih (fun other member => small other (.tail _ member)) inside)
    have first (begins : word <+: lower (character :: rest)) : word <:+: character :: rest :=
      (unforgeable.prefix_of_prefix_lower small begins).isInfix
    rw [lower_cons] at inside first
    rcases lowerChar_cases (small character List.mem_cons_self) with kelvin | dotted | own
    · rw [kelvin, List.singleton_append] at inside first
      exact (List.infix_cons_iff.mp inside).elim first later
    · rw [dotted, List.cons_append, List.singleton_append] at inside first
      -- The word begins with the `i`, with its dot or later; the dot begins no such word.
      rcases List.infix_cons_iff.mp inside with begins | inside
      · exact first begins
      · rcases List.infix_cons_iff.mp inside with begins | inside
        · cases word with
          | nil => exact List.nil_infix
          | cons letter letters =>
            rw [List.cons_prefix_cons] at begins
            exact absurd begins.1 (unforgeable.1 letter List.mem_cons_self).2
        · exact later inside
    · rw [own, List.singleton_append] at inside first
      exact (List.infix_cons_iff.mp inside).elim first later

theorem Unforgeable.infix_lower_iff (unforgeable : Unforgeable word) (lowered : lower word = word)
    (small : ∀ character ∈ text, character.toLower = character) :
    word <:+: lower text ↔ word <:+: text := by
  constructor
  · exact unforgeable.infix_of_infix_lower small
  · rintro ⟨before, after, rfl⟩
    rw [lower_append, lower_append, lowered]
    exact List.infix_append _ _ _

end

end Typeface.Text
