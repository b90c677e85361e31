import Typeface.Face
import Typeface.Text

/-! The style that a face declares: what its table says, and where the table is silent what the name
of the subfamily and the angle of the letters tell. -/

set_option autoImplicit false

namespace Typeface

/-- The weights that words in a subfamily name stand for, compounds before their stems: the first
entry counts of which a word occurs. -/
def weightWords : List (List String × Weight) :=
  [(["extralight", "ultralight"], .ofInt 200),
    (["semibold", "demibold"], .ofInt 600),
    (["extrabold", "ultrabold"], .ofInt 800),
    (["hairline", "thin"], .ofInt 100),
    (["light"], .ofInt 300),
    (["medium"], .ofInt 500),
    (["bold"], .bold),
    (["black", "heavy"], .ofInt 900)]

def isSeparator (character : Char) : Bool :=
  Text.isBlank character || character == '_' || character == '-'

def plainName (name : List Char) : List Char :=
  (Text.lower name).filter fun character => !isSeparator character

def weightOfName (name : String) : Weight :=
  let text := plainName name.toList
  match weightWords.find? fun (words, _) => Text.holdsAny words text with
  | some (_, weight) => weight
  | none => .normal

namespace Face

def looksItalic (face : Face) : Bool :=
  face.italicAngle.any (!·.isZero) ||
    Text.holdsAny ["italic", "oblique"] (face.subfamily.toList.map Char.toLower)

def declaredWeight (face : Face) (table : Option StyleTable) : Weight :=
  match table.bind StyleTable.weightClass with
  | some weight => .ofNumber weight
  | none => weightOfName face.subfamily

def declaredItalic (face : Face) (table : Option StyleTable) : Bool :=
  (table.bind StyleTable.italic?).getD face.looksItalic

def declaredStyle (face : Face) (table : Option StyleTable) : Style :=
  ⟨face.declaredWeight table, .ofItalic (face.declaredItalic table)⟩

end Face

end Typeface
