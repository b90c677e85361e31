import Typeface.Issue

/-! The reasons for which an operation fails, and their texts. -/

set_option autoImplicit false

namespace Typeface

inductive Fault where
  | noFamilies
  | emptyFamily (index : Nat) (name : String)
  -- The one family to match in has no variants.
  | noVariants (name : String)
  -- A family was to be made of no variants.
  | noMembers (name : String)
  | noDefault
  | rejected (issues : List Issue)
  -- A font file could not be decoded, for a reason given in words.
  | unreadable (fileName reason : String)
  -- A decoded font has no face that can be read.
  | unrecognized (fileName : String)
  deriving DecidableEq, Repr

namespace Fault

def message : Fault → String
  | .noFamilies => "[FamilySelector] Family list must not be empty"
  | .emptyFamily index name =>
    "[FamilySelector] Family " ++ Nat.repr index ++ " (\"" ++ name ++ "\") has no variants"
  | .noVariants name => "[FamilySelector] Family \"" ++ name ++ "\" has no variants"
  | .noMembers name => "[Families] Family \"" ++ name ++ "\" has no variants"
  | .noDefault => "[DefaultIdentityRegistry] Default identity read before initialization"
  | .rejected issues => "[Validation] " ++ "; ".intercalate (issues.map Issue.text)
  | .unreadable fileName _ => "[StyleReader] Failed to parse " ++ fileName
  | .unrecognized fileName => "[StyleReader] Unrecognized font object for " ++ fileName

def reason? : Fault → Option String
  | .unreadable _ reason => some reason
  | _ => none

end Fault

section

variable {ε α β : Type} {result : Except ε α} {value : β}

theorem map_eq_ok_iff {transform : α → β} :
    result.map transform = .ok value ↔ ∃ part, result = .ok part ∧ transform part = value := by
  cases result <;> simp [Except.map]

theorem bind_eq_ok_iff {next : α → Except ε β} :
    result.bind next = .ok value ↔ ∃ part, result = .ok part ∧ next part = .ok value := by
  cases result <;> simp [Except.bind]

end

end Typeface
