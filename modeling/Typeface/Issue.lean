import Typeface.Value

/-! What can be wrong with an untyped value, each defect at its place and with its text. -/

set_option autoImplicit false

namespace Typeface

inductive Expectation where
  | kind (expected : Kind)
  | oneOf (names : List String)
  deriving DecidableEq, Repr

def alternatives (names : List String) : String :=
  " | ".intercalate (names.map fun name => "'" ++ name ++ "'")

def Expectation.text : Expectation → String
  | .kind expected => expected.name
  | .oneOf names => alternatives names

inductive Defect where
  | mismatch (expected : Expectation) (received : Kind)
  | unlisted (names : List String) (received : String)
  -- The member that tells the alternatives of an object apart names none of them.
  | undistinguished (names : List String)
  | notInteger
  | negative
  -- None of the shapes that the value may take fits it.
  | shapeless
  deriving DecidableEq, Repr

def Defect.text : Defect → String
  | .mismatch expected received =>
    if received = .absent then "Required"
    else "Expected " ++ expected.text ++ ", received " ++ received.name
  | .unlisted names received =>
    "Invalid enum value. Expected " ++ alternatives names ++ ", received '" ++ received ++ "'"
  | .undistinguished names => "Invalid discriminator value. Expected " ++ alternatives names
  | .notInteger => "Expected integer, received float"
  | .negative => "Number must be greater than or equal to 0"
  | .shapeless => "Invalid input"

/-- A defect and where it is: the names of the members that lead to it from the root. -/
structure Issue where
  path : List String
  defect : Defect
  deriving DecidableEq, Repr

namespace Issue

def here (defect : Defect) : Issue := ⟨[], defect⟩

def below (name : String) (issue : Issue) : Issue := { issue with path := name :: issue.path }

/-- The place and the defect; the place of the root is given by the caller. -/
def textFrom (root : String) (issue : Issue) : String :=
  let place := if issue.path = [] then root else ".".intercalate issue.path
  place ++ ": " ++ issue.defect.text

def text (issue : Issue) : String := issue.textFrom "(root)"

end Issue

end Typeface
