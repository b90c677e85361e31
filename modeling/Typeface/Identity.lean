import Typeface.Selection

/-! Identities, the resolved styles that text is drawn with. An identity keeps the base weight that
relative changes start from apart from the weight that it shows, so bold upon bold stays one step
above the base, and normal after bold returns to it. -/

set_option autoImplicit false

namespace Typeface

structure Identity where
  style : Style
  -- The weight to which a relative request for normal returns.
  baseWeight : Int
  styleClass : StyleClass
  families : List Family
  deriving DecidableEq, Repr

namespace Identity

/-- The identity that a style starts: the style is its own base. -/
def ofStyle (style : Style) (families : List Family) : Identity :=
  ⟨style, style.weight.value, style.styleClass, families⟩

/-- An upright identity of the weight nearest to a number. It counts as normal whatever the
weight. -/
def ofBaseWeight (weight : Number) (families : List Family) : Identity :=
  ⟨.ofNumber weight .upright, (Weight.ofNumber weight).value, .normal, families⟩

def relativeWeight (base : Int) (wanted : StyleClass) : Weight :=
  .ofInt (if wanted.isBold then base + Weight.boldStep else base)

def relative (base : Identity) (wanted : StyleClass) : Identity :=
  let style : Style := ⟨relativeWeight base.baseWeight wanted, .ofItalic wanted.isItalic⟩
  { base with style, styleClass := style.styleClass }

/-- What a renderer draws an identity with. -/
def draw (identity : Identity) : Except Fault Selection :=
  selectStyle identity.families identity.style

end Identity

end Typeface
