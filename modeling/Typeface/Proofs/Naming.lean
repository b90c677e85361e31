import Typeface.Face.DeclaredStyle
import Typeface.Proofs.Lowering

/-! The weight that a name tells. Of a name it counts which words stand in it once case and separators are gone, so
two names that differ in nothing else tell the same weight. The table of words is gone through in order, and
compounds come before the stems that they contain; no weight in it is the normal one, so a name tells that
one exactly if no stem stands anywhere in it. -/

set_option autoImplicit false

namespace Typeface

namespace Text

def Mentions (words : List String) (text : List Char) : Prop :=
  ∃ word ∈ words, word.toList <:+: text

theorem holdsAny_eq_true_iff {words : List String} {text : List Char} :
    holdsAny words text = true ↔ Mentions words text := by
  simp only [holdsAny, List.any_eq_true, holds_eq_true_iff, Mentions]

instance (words : List String) (text : List Char) : Decidable (Mentions words text) :=
  decidable_of_iff (holdsAny words text = true) holdsAny_eq_true_iff

theorem mentions_congr {words : List String} {left right : List Char}
    (ascii : ∀ word ∈ words, IsAscii word.toList) (same : left.map coarse = right.map coarse) :
    Mentions words left ↔ Mentions words right := by
  apply exists_congr
  intro word
  apply and_congr_right
  intro member
  rw [← (ascii word member).infix_map_coarse_iff, same, (ascii word member).infix_map_coarse_iff]

end Text

/-- A name in lower case, as some lower-casing has it, and without separators. -/
def squeezed (fold : List Char → List Char) (name : List Char) : List Char :=
  (fold name).filter fun character => !isSeparator character

def squeezedAscii (name : List Char) : List Char := squeezed (List.map Char.toLower) name

section

variable {character : Char} {name : List Char}

theorem isSeparator_eq_false_of_isAlpha (letter : character.isAlpha = true) :
    isSeparator character = false := by
  have all : ∀ code < 128, (Char.ofNat code).isAlpha = true →
      isSeparator (Char.ofNat code) = false := by
    decide
  have alphanumeric : character.isAlphanum = true := by rw [Char.isAlphanum, letter, Bool.true_or]
  obtain ⟨code, bound, rfl⟩ := Text.exists_ofNat_eq (Text.toNat_lt_of_isAlphanum alphanumeric)
  exact all code bound letter

theorem isSeparator_toLower (character : Char) :
    isSeparator character.toLower = isSeparator character := by
  by_cases capital : character.isUpper = true
  · have letter : character.isAlpha = true := by rw [Char.isAlpha, capital, Bool.true_or]
    rw [isSeparator_eq_false_of_isAlpha letter]
    apply isSeparator_eq_false_of_isAlpha
    rwa [Char.isAlpha_toLower_eq_isAlpha]
  · rw [Char.toLower_eq_of_not_isUpper capital]

theorem isSeparator_coarse (character : Char) :
    isSeparator (Text.coarse character) = isSeparator character := by
  have mark (mark : Char) (ascii : mark.toNat < 128) :
      (Text.coarse character == mark) = (character == mark) := by
    rw [Bool.eq_iff_iff, beq_iff_eq, beq_iff_eq, Text.coarse_eq_iff ascii]
  rw [isSeparator, isSeparator, Text.isBlank_coarse, mark '_' (by decide), mark '-' (by decide)]

theorem isSeparator_of_mem_lowerChar {lowered : Char} (member : lowered ∈ Text.lowerChar character) :
    isSeparator lowered = isSeparator character := by
  unfold Text.lowerChar at member
  split at member
  case isTrue kelvin =>
    rw [List.mem_singleton.mp member, kelvin]
    decide
  case isFalse =>
    split at member
    case isTrue dotted =>
      rw [dotted]
      rcases List.mem_pair.mp member with rfl | rfl <;> decide
    case isFalse => rw [List.mem_singleton.mp member, isSeparator_toLower]

theorem filter_lower (name : List Char) :
    (Text.lower name).filter (fun character => !isSeparator character) =
      Text.lower (name.filter fun character => !isSeparator character) := by
  induction name with
  | nil => rfl
  | cons character rest ih =>
    rw [Text.lower_cons, List.filter_append, ih, List.filter_cons]
    cases separator : isSeparator character with
    | true =>
      have gone : (Text.lowerChar character).filter (fun character => !isSeparator character) = [] := by
        rw [List.filter_eq_nil_iff]
        intro lowered member
        rw [isSeparator_of_mem_lowerChar member, separator]
        decide
      rw [gone]
      rfl
    | false =>
      have kept : (Text.lowerChar character).filter (fun character => !isSeparator character) =
          Text.lowerChar character := by
        rw [List.filter_eq_self]
        intro lowered member
        rw [isSeparator_of_mem_lowerChar member, separator]
        rfl
      rw [kept]
      rfl

theorem plainName_eq_lower_squeezedAscii (name : List Char) :
    plainName name = Text.lower (squeezedAscii name) := by
  rw [plainName, ← Text.lower_map_toLower, filter_lower, squeezedAscii, squeezed]

end

/-- The words for weights that are in no other such word, and in one or another of which every such word is. -/
def weightStems : List String := ["hairline", "thin", "light", "medium", "bold", "black", "heavy"]

theorem mentions_weightStems_iff {text : List Char} :
    Text.Mentions weightStems text ↔ ∃ entry ∈ weightWords, Text.Mentions entry.1 text := by
  -- Every stem is a word of the table, and every word of the table has a stem in it.
  have listed : ∀ stem ∈ weightStems, ∃ entry ∈ weightWords, stem ∈ entry.1 := by decide
  have stemmed : ∀ entry ∈ weightWords, ∀ word ∈ entry.1, ∃ stem ∈ weightStems,
      stem.toList <:+: word.toList := by decide +kernel
  constructor
  · rintro ⟨stem, member, stands⟩
    obtain ⟨entry, entryMember, own⟩ := listed stem member
    exact ⟨entry, entryMember, stem, own, stands⟩
  · rintro ⟨entry, entryMember, word, member, stands⟩
    obtain ⟨stem, stemMember, within⟩ := stemmed entry entryMember word member
    exact ⟨stem, stemMember, within.trans stands⟩

section

variable {name : String}

theorem weightOfName_eq (name : String) :
    weightOfName name =
      ((weightWords.find? fun entry => Text.holdsAny entry.1 (plainName name.toList)).map
        Prod.snd).getD .normal := by
  rw [weightOfName]
  split
  case h_1 words weight found =>
    have found : weightWords.find? (fun entry => Text.holdsAny entry.1 (plainName name.toList)) =
        some (words, weight) := found
    rw [found]
    rfl
  case h_2 missing =>
    have missing : weightWords.find? (fun entry => Text.holdsAny entry.1 (plainName name.toList)) =
        none := missing
    rw [missing]
    rfl

theorem weightOfName_of_entry {before after : List (List String × Weight)} {words : List String}
    {weight : Weight} (table : weightWords = before ++ (words, weight) :: after)
    (mentioned : Text.Mentions words (plainName name.toList))
    (passed : ∀ entry ∈ before, ¬ Text.Mentions entry.1 (plainName name.toList)) :
    weightOfName name = weight := by
  have found : weightWords.find? (fun entry => Text.holdsAny entry.1 (plainName name.toList)) =
      some (words, weight) := by
    rw [List.find?_eq_some_iff_append]
    refine ⟨Text.holdsAny_eq_true_iff.mpr mentioned, before, after, table, fun entry member => ?_⟩
    rw [Bool.not_eq_true', ← Bool.not_eq_true, Text.holdsAny_eq_true_iff]
    exact passed entry member
  rw [weightOfName_eq, found]
  rfl

theorem weightOfName_eq_normal_iff :
    weightOfName name = .normal ↔ ¬ Text.Mentions weightStems (plainName name.toList) := by
  -- The normal weight is not in the table, so it is only told for want of any other.
  have abnormal : ∀ entry ∈ weightWords, entry.2 ≠ .normal := by decide
  rw [weightOfName_eq, mentions_weightStems_iff]
  cases found : weightWords.find? fun entry => Text.holdsAny entry.1 (plainName name.toList) with
  | none =>
    have unmentioned := List.find?_eq_none.mp found
    simp only [Text.holdsAny_eq_true_iff] at unmentioned
    simpa using unmentioned
  | some entry =>
    have member := List.mem_of_find?_eq_some found
    have mentioned := Text.holdsAny_eq_true_iff.mp (List.find?_eq_some_iff_append.mp found).1
    constructor
    · intro normal
      exact absurd normal (abnormal entry member)
    · intro unmentioned
      exact absurd ⟨entry, member, mentioned⟩ unmentioned

theorem mentions_plainName_iff (name : String) {words : List String}
    (unforgeable : ∀ word ∈ words, Text.Unforgeable word.toList ∧ Text.lower word.toList = word.toList) :
    Text.Mentions words (plainName name.toList) ↔
      Text.Mentions words (squeezedAscii name.toList) := by
  have small : ∀ character ∈ squeezedAscii name.toList,
      character.toLower = character := by
    intro character member
    rw [squeezedAscii, squeezed] at member
    obtain ⟨original, _, rfl⟩ := List.mem_map.mp (List.mem_filter.mp member).1
    exact Char.toLower_toLower_eq_toLower original
  rw [plainName_eq_lower_squeezedAscii]
  apply exists_congr
  intro word
  apply and_congr_right
  intro member
  exact (unforgeable word member).1.infix_lower_iff (unforgeable word member).2 small

theorem mentions_squeezed_iff (name : String) {words : List String} {fold : List Char → List Char}
    (lowering : Text.IsLowering fold) (ascii : ∀ word ∈ words, Text.IsAscii word.toList) :
    Text.Mentions words (squeezed fold name.toList) ↔ Text.Mentions words (plainName name.toList) := by
  apply Text.mentions_congr ascii
  have through : (fun character => !isSeparator character) ∘ Text.coarse =
      fun character => !isSeparator character := by
    funext character
    rw [Function.comp_apply, isSeparator_coarse]
  have filtered := congrArg (List.filter fun character => !isSeparator character)
    (lowering name.toList)
  rwa [List.filter_map, List.filter_map, through] at filtered

end

/-- Names that become equal with small ASCII letters and without separators tell the same weight. Of the compounds
the light ones come first and the heaviest last, whatever else stands in the name; and the weight is normal
exactly if no stem stands in the name, however its letters are brought to lower case. -/
theorem weightOfName_told {fold : List Char → List Char} (lowering : Text.IsLowering fold)
    (name : String) :
    (∀ other : String, squeezedAscii other.toList = squeezedAscii name.toList →
        weightOfName other = weightOfName name) ∧
      (Text.Mentions ["extralight", "ultralight"] (squeezedAscii name.toList) →
        (weightOfName name).value = 200) ∧
      (¬ Text.Mentions ["extralight", "ultralight"] (squeezedAscii name.toList) ∧
          Text.Mentions ["semibold", "demibold"] (squeezedAscii name.toList) →
        (weightOfName name).value = 600) ∧
      (¬ Text.Mentions ["extralight", "ultralight"] (squeezedAscii name.toList) ∧
          ¬ Text.Mentions ["semibold", "demibold"] (squeezedAscii name.toList) ∧
          Text.Mentions ["extrabold", "ultrabold"] (squeezedAscii name.toList) →
        (weightOfName name).value = 800) ∧
      ((weightOfName name).value = 400 ↔
        ¬ Text.Mentions ["hairline", "thin", "light", "medium", "bold", "black", "heavy"]
          (squeezed fold name.toList)) := by
  have light := mentions_plainName_iff name (show ∀ word ∈ ["extralight", "ultralight"],
    Text.Unforgeable word.toList ∧ Text.lower word.toList = word.toList by decide)
  have strong := mentions_plainName_iff name (show ∀ word ∈ ["semibold", "demibold"],
    Text.Unforgeable word.toList ∧ Text.lower word.toList = word.toList by decide)
  have heavy := mentions_plainName_iff name (show ∀ word ∈ ["extrabold", "ultrabold"],
    Text.Unforgeable word.toList ∧ Text.lower word.toList = word.toList by decide)
  have stems := mentions_squeezed_iff name lowering (show ∀ word ∈ weightStems,
    Text.IsAscii word.toList by decide)
  rw [← light, ← strong, ← heavy]
  refine ⟨?_, ?_, ?_, ?_, ?_⟩
  · intro other same
    rw [weightOfName_eq, weightOfName_eq, plainName_eq_lower_squeezedAscii, same,
      ← plainName_eq_lower_squeezedAscii]
  · intro mentioned
    have table : weightWords = [] ++ (["extralight", "ultralight"], .ofInt 200) :: weightWords.drop 1 := rfl
    rw [weightOfName_of_entry table mentioned nofun]
    rfl
  · rintro ⟨notLight, mentioned⟩
    have table : weightWords =
        weightWords.take 1 ++ (["semibold", "demibold"], .ofInt 600) :: weightWords.drop 2 := rfl
    rw [weightOfName_of_entry table mentioned (List.forall_mem_singleton.mpr notLight)]
    rfl
  · rintro ⟨notLight, notStrong, mentioned⟩
    have table : weightWords =
        weightWords.take 2 ++ (["extrabold", "ultrabold"], .ofInt 800) :: weightWords.drop 3 := rfl
    rw [weightOfName_of_entry table mentioned
      (List.forall_mem_cons.mpr ⟨notLight, List.forall_mem_singleton.mpr notStrong⟩)]
    rfl
  · have normal : (weightOfName name).value = 400 ↔ weightOfName name = .normal :=
      ⟨fun same => Weight.ext same, fun same => congrArg Weight.value same⟩
    rw [normal, weightOfName_eq_normal_iff]
    exact not_congr stems.symm

theorem weightOfName_told_mixed :
    Text.IsLowering Text.lower ∧
      (squeezedAscii "Ultra-Light\u00A0BOLD".toList = squeezedAscii "ULTRA_LIGHT bold".toList ∧
        weightOfName "Ultra-Light\u00A0BOLD" = weightOfName "ULTRA_LIGHT bold" ∧
        (weightOfName "ULTRA_LIGHT bold").value = 200) ∧
      (weightOfName "Black Demi Bold").value = 600 ∧
      (weightOfName "Thin Extra\tBold").value = 800 ∧
      (Text.Mentions ["black"] (squeezed Text.lower "Blac\u212A".toList) ∧
        (weightOfName "Blac\u212A").value ≠ 400) ∧
      (weightOfName "Regular").value = 400 := by
  have lowering := Text.isLowering_lower
  have same : squeezedAscii "Ultra-Light\u00A0BOLD".toList = squeezedAscii "ULTRA_LIGHT bold".toList := by
    decide +kernel
  have kelvin : Text.Mentions ["black"] (squeezed Text.lower "Blac\u212A".toList) := by decide +kernel
  obtain ⟨alike, light, _⟩ := weightOfName_told lowering "ULTRA_LIGHT bold"
  obtain ⟨_, _, strong, _⟩ := weightOfName_told lowering "Black Demi Bold"
  obtain ⟨_, _, _, heavy, _⟩ := weightOfName_told lowering "Thin Extra\tBold"
  obtain ⟨_, _, _, _, black⟩ := weightOfName_told lowering "Blac\u212A"
  obtain ⟨_, _, _, _, regular⟩ := weightOfName_told lowering "Regular"
  refine ⟨lowering, ⟨same, alike _ same, light (by decide +kernel)⟩, strong (by decide +kernel),
    heavy (by decide +kernel), ⟨kelvin, ?_⟩, regular.mpr (by decide +kernel)⟩
  rw [ne_eq, black, not_not]
  decide +kernel

end Typeface
