import Typeface.Face
import Typeface.Request

/-! The shapes that untyped input can be checked against, each with its decoder, and the verdict of
a check that does not fail. -/

set_option autoImplicit false

namespace Typeface

inductive Schema where
  | request
  | style
  | styleTable
  deriving DecidableEq, Repr

def Schema.decode : Schema → Decoder Value
  | .request => .map Request.toValue Request.decode
  | .style => .map Style.toValue Style.decode
  | .styleTable => .map StyleTable.toValue StyleTable.decode

/-- Input that was accepted, or what took its place and why. -/
inductive Verdict (α : Type) where
  | accepted (data : α)
  | replaced (fallback : α) (issues : List Issue)

namespace Verdict

variable {α : Type}

def data : Verdict α → α
  | .accepted data => data
  | .replaced fallback _ => fallback

def issues : Verdict α → List Issue
  | .accepted _ => []
  | .replaced _ issues => issues

def isAccepted : Verdict α → Bool
  | .accepted _ => true
  | .replaced _ _ => false

end Verdict

end Typeface
