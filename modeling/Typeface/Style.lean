import Typeface.Decoder
import Typeface.Weight

/-! Styles, a weight with a slant, and the four-way classification of styles into normal, bold,
italic and bold italic. -/

set_option autoImplicit false

namespace Typeface

inductive Slant where
  | upright
  | italic
  deriving DecidableEq, Repr

namespace Slant

def ofItalic (italic : Bool) : Slant := if italic then .italic else .upright

def isItalic (slant : Slant) : Bool := slant == .italic

@[simp] theorem isItalic_ofItalic (italic : Bool) : (ofItalic italic).isItalic = italic := by
  cases italic <;> rfl

@[simp] theorem ofItalic_isItalic (slant : Slant) : ofItalic slant.isItalic = slant := by
  cases slant <;> rfl

def all : List Slant := [.upright, .italic]

def name : Slant → String
  | .upright => "upright"
  | .italic => "italic"

end Slant

structure Style where
  weight : Weight
  slant : Slant
  deriving DecidableEq, Repr

def Style.ofNumber (weight : Number) (slant : Slant) : Style := ⟨.ofNumber weight, slant⟩

def Style.regular : Style := ⟨.normal, .upright⟩

inductive StyleClass where
  | normal
  | bold
  | italic
  | boldItalic
  deriving DecidableEq, Repr

namespace StyleClass

def all : List StyleClass := [.normal, .bold, .italic, .boldItalic]

def name : StyleClass → String
  | .normal => "NORMAL"
  | .bold => "BOLD"
  | .italic => "ITALIC"
  | .boldItalic => "BOLD_ITALIC"

def isBold (style : StyleClass) : Bool := style == .bold || style == .boldItalic

def isItalic (style : StyleClass) : Bool := style == .italic || style == .boldItalic

def ofFlags (bold italic : Bool) : StyleClass :=
  match bold, italic with
  | true, true => .boldItalic
  | true, false => .bold
  | false, true => .italic
  | false, false => .normal

@[simp] theorem isBold_ofFlags (bold italic : Bool) : (ofFlags bold italic).isBold = bold := by
  cases bold <;> cases italic <;> rfl

@[simp] theorem isItalic_ofFlags (bold italic : Bool) : (ofFlags bold italic).isItalic = italic := by
  cases bold <;> cases italic <;> rfl

@[simp] theorem ofFlags_flags (style : StyleClass) : ofFlags style.isBold style.isItalic = style := by
  cases style <;> rfl

/-- The class of a weight that may still be out of range, with a slant. -/
def ofNumber (weight : Number) (slant : Slant) : StyleClass :=
  ofFlags (Weight.boldThreshold.value ≤ (Weight.ofNumber weight).value) slant.isItalic

end StyleClass

def Style.styleClass (style : Style) : StyleClass :=
  .ofNumber style.weight.toNumber style.slant

theorem Style.styleClass_eq (style : Style) :
    style.styleClass =
      .ofFlags (Weight.boldThreshold.value ≤ style.weight.value) style.slant.isItalic := by
  simp [styleClass, StyleClass.ofNumber]

/-! Styles as untyped data. The weight may be left out, and the slant may be given by name or by an
italic flag; the name counts where both are given. -/

namespace Style

def decode : Decoder Style :=
  .object <| .map
    (fun (weight, italic, slant) =>
      .ofNumber (weight.getD Weight.normal.toNumber)
        (slant.getD (.ofItalic (italic.getD false))))
    (.both (.member "weight" (.optional .number))
      (.both (.member "italic" (.optional .boolean))
        (.member "slant" (.optional (.oneOf Slant.all Slant.name)))))

def toValue (style : Style) : Value :=
  .object [("weight", .number style.weight.toNumber), ("slant", .string style.slant.name)]

end Style

end Typeface
