import Typeface.Family

/-! The variant that stands for a style. Nearness is counted in weight grades, with two more for the
wrong slant; without a wanted style the fonts' own regular is chosen, the heaviest upright variant
up to the normal weight. Among equals the earliest wins, first within a family and then across
families. -/

set_option autoImplicit false

namespace Typeface

/-- How far an actual style is from a wanted one. -/
def matchScore (wanted actual : Style) : Nat :=
  ((wanted.weight.grade : Int) - actual.weight.grade).natAbs +
    if wanted.slant = actual.slant then 0 else 2

@[simp] theorem matchScore_self (style : Style) : matchScore style style = 0 := by
  simp [matchScore]

/-- What a renderer adds to a variant to reach the wanted style. -/
structure Fakery where
  bold : Bool
  italic : Bool
  deriving DecidableEq, Repr

/-- The distance in weight from which a synthetic bold is worth drawing. -/
def fakeBoldGap : Nat := 200

def Fakery.between (wanted actual : Style) : Fakery where
  bold := Weight.boldThreshold.value ≤ wanted.weight.value ∧
    actual.weight.value + fakeBoldGap ≤ wanted.weight.value
  italic := wanted.slant = .italic ∧ actual.slant = .upright

structure Selection where
  style : Style
  familyIndex : Nat
  family : Family
  variant : Variant
  deriving DecidableEq, Repr

/-- Either a value, or the request to take it from what the fonts declare. -/
inductive Wanted (α : Type) where
  | given (value : α)
  | byFontTable
  deriving DecidableEq, Repr

def byFontTableName : String := "resolve-by-font-table"

def Style.IsRegular (style : Style) : Prop :=
  style.slant = .upright ∧ style.weight.value ≤ Weight.normal.value

instance : DecidablePred Style.IsRegular := fun _ => inferInstanceAs (Decidable (_ ∧ _))

namespace Family

def closest? (family : Family) (style : Style) : Option Variant :=
  family.variants.minOn? fun variant => matchScore style variant.style

def regular? (family : Family) : Option Variant :=
  (family.variants.filter fun variant => variant.style.IsRegular).maxOn? fun variant =>
    variant.style.weight.value

end Family

namespace Selection

/-- What a choice within each family selects in a list of families, for the style that goes with
the chosen variant. -/
def candidates (families : List Family) (choose : Family → Option Variant)
    (style : Variant → Style) : List Selection :=
  families.zipIdx.filterMap fun (family, index) =>
    (choose family).map fun variant => ⟨style variant, index, family, variant⟩

def byStyle? (families : List Family) (style : Style) : Option Selection :=
  (candidates families (·.closest? style) fun _ => style).minOn? fun selection =>
    matchScore style selection.variant.style

/-- The first of the heaviest regular selections; where no family has a regular variant, the first
variant of the first family. The style is the one that the variant declares. -/
def byFontTable? (families : List Family) : Option Selection :=
  ((candidates families Family.regular? Variant.style).maxOn? fun selection =>
    selection.style.weight.value).or
      (candidates families (·.variants.head?) Variant.style).head?

def checked (families : List Family) (selection : Option Selection) : Except Fault Selection :=
  -- An empty list has no empty family in it, and nothing can be selected from it.
  match firstEmpty? families, selection with
  | some (family, index), _ => .error (.emptyFamily index family.name)
  | none, some selection => .ok selection
  | none, none => .error .noFamilies

theorem checked_ok_iff {families : List Family} {selection : Option Selection}
    {result : Selection} :
    checked families selection = .ok result ↔ Stocked families ∧ selection = some result := by
  unfold checked
  rw [← firstEmpty?_eq_none_iff]
  split <;> simp_all

end Selection

/-- The selection for a weight and a slant. A side that is left to the fonts is that of the style
that the font table selects. -/
def selectVariant (families : List Family) (weight : Wanted Number) (italic : Wanted Bool) :
    Except Fault Selection :=
  Selection.checked families <|
    match weight, italic with
    | .byFontTable, .byFontTable => Selection.byFontTable? families
    | .given weight, .given italic =>
      Selection.byStyle? families (.ofNumber weight (.ofItalic italic))
    | .given weight, .byFontTable =>
      (Selection.byFontTable? families).bind fun anchor =>
        Selection.byStyle? families (.ofNumber weight anchor.style.slant)
    | .byFontTable, .given italic =>
      (Selection.byFontTable? families).bind fun anchor =>
        Selection.byStyle? families ⟨anchor.style.weight, .ofItalic italic⟩

def selectStyle (families : List Family) (style : Style) : Except Fault Selection :=
  Selection.checked families (Selection.byStyle? families style)

def matchVariant (family : Family) (style : Style) : Except Fault (Variant × Fakery) :=
  match family.closest? style with
  | none => .error (.noVariants family.name)
  | some variant => .ok (variant, .between style variant.style)

def Selection.fakery (selection : Selection) : Fakery :=
  .between selection.style selection.variant.style

end Typeface
