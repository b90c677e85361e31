/-! Texts as lists of characters: which characters are blank, which words stand in a text, and lower
case as far as such words need it. Blank are the tabs and line ends, and what Unicode calls white
space or a space separator, together with the byte order mark; 25 characters in all. The next-line
control and the zero-width space are not among them. -/

set_option autoImplicit false

namespace Typeface.Text

/-- The blank characters as ranges of code points, both ends included, in ascending order. -/
def blankRanges : List (Nat × Nat) :=
  [(0x9, 0xD), (0x20, 0x20), (0xA0, 0xA0), (0x1680, 0x1680), (0x2000, 0x200A), (0x2028, 0x2029),
    (0x202F, 0x202F), (0x205F, 0x205F), (0x3000, 0x3000), (0xFEFF, 0xFEFF)]

def isBlank (character : Char) : Bool :=
  blankRanges.any fun (first, last) => first ≤ character.toNat && character.toNat ≤ last

def trim (text : List Char) : List Char :=
  ((text.dropWhile isBlank).reverse.dropWhile isBlank).reverse

def holds (word : List Char) : List Char → Bool
  | [] => word.isEmpty
  | character :: rest => word.isPrefixOf (character :: rest) || holds word rest

theorem holds_eq_true_iff {word text : List Char} : holds word text = true ↔ word <:+: text := by
  induction text with
  | nil => simp [holds]
  | cons character rest ih => simp [holds, ih, List.infix_cons_iff]

def holdsAny (words : List String) (text : List Char) : Bool :=
  words.any fun word => holds word.toList text

/-! Lower case decides whether a text holds words made of the letters a to z. Outside the 26 capital
letters only two characters have a lower case with one of these letters in it: the Kelvin sign, and
the capital I with a dot, whose dot stays behind as a mark of its own. -/

def lowerChar (character : Char) : List Char :=
  if character = '\u212A' then ['k']
  else if character = '\u0130' then ['i', '\u0307']
  else [character.toLower]

def lower (text : List Char) : List Char := text.flatMap lowerChar

@[simp] theorem lower_nil : lower [] = [] := rfl

@[simp] theorem lower_cons (character : Char) (rest : List Char) :
    lower (character :: rest) = lowerChar character ++ lower rest := rfl

@[simp] theorem lower_append (left right : List Char) :
    lower (left ++ right) = lower left ++ lower right := by
  simp [lower]

end Typeface.Text
