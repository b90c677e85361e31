import Typeface.Issue
import Typeface.Number.Text

/-! Decoders take untyped values to typed ones, or report every defect that keeps them from it. The
defects of an object come in the order in which its members are asked for. -/

set_option autoImplicit false

namespace Typeface

abbrev Decoder (α : Type) := Value → Except (List Issue) α

namespace Decoder

variable {α β : Type}

def mismatch (expected : Expectation) (value : Value) : Except (List Issue) α :=
  .error [.here (.mismatch expected value.kind)]

def number : Decoder Number
  | .number value => if value = .nan then mismatch (.kind .number) (.number value) else .ok value
  | value => mismatch (.kind .number) value

def boolean : Decoder Bool
  | .boolean value => .ok value
  | value => mismatch (.kind .boolean) value

def string : Decoder String
  | .string value => .ok value
  | value => mismatch (.kind .string) value

/-- One of the given options, by its name. A number is reported as a name that is not listed. -/
def oneOf (options : List α) (name : α → String) : Decoder α
  | .string value =>
    match options.find? (name · = value) with
    | some option => .ok option
    | none => .error [.here (.unlisted (options.map name) value)]
  | .number value =>
    if value = .nan then mismatch (.oneOf (options.map name)) (.number value)
    else .error [.here (.unlisted (options.map name) value.text)]
  | value => mismatch (.oneOf (options.map name)) value

def optional (decode : Decoder α) : Decoder (Option α)
  | .absent => .ok none
  | value => (decode value).map some

def nullable (decode : Decoder α) : Decoder (Option α)
  | .null => .ok none
  | value => optional decode value

def anything : Decoder Value := .ok

def member (name : String) (decode : Decoder α) : Decoder α := fun value =>
  match decode (value.member name) with
  | .ok result => .ok result
  | .error issues => .error (issues.map (Issue.below name))

def map (transform : α → β) (decode : Decoder α) : Decoder β := fun value =>
  (decode value).map transform

/-- Both results, or the defects of the first and then those of the second. -/
def both (first : Decoder α) (second : Decoder β) : Decoder (α × β) := fun value =>
  match first value, second value with
  | .ok left, .ok right => .ok (left, right)
  | .ok _, .error issues => .error issues
  | .error issues, .ok _ => .error issues
  | .error issues, .error more => .error (issues ++ more)

/-- Members are looked at in objects only; any other value is one defect. -/
def object (members : Decoder α) : Decoder α
  | .object entries => members (.object entries)
  | value => mismatch (.kind .object) value

@[simp] theorem map_ok_iff {transform : α → β} {decode : Decoder α} {value : Value} {result : β} :
    map transform decode value = .ok result ↔
      ∃ part, decode value = .ok part ∧ transform part = result := by
  cases found : decode value <;> simp [map, Except.map, found]

@[simp] theorem both_ok_iff {first : Decoder α} {second : Decoder β} {value : Value}
    {result : α × β} :
    both first second value = .ok result ↔
      first value = .ok result.1 ∧ second value = .ok result.2 := by
  cases result
  cases left : first value <;> cases right : second value <;> simp [both, left, right]

@[simp] theorem member_ok_iff {name : String} {decode : Decoder α} {value : Value} {result : α} :
    member name decode value = .ok result ↔ decode (value.member name) = .ok result := by
  cases found : decode (value.member name) <;> simp [member, found]

@[simp] theorem object_ok_iff {members : Decoder α} {value : Value} {result : α} :
    object members value = .ok result ↔ value.kind = .object ∧ members value = .ok result := by
  cases value with
  | number value => simp [object, mismatch, Value.kind]; split <;> simp
  | _ => simp [object, mismatch, Value.kind]

@[simp] theorem number_ok_iff {value : Value} {result : Number} :
    number value = .ok result ↔ value = .number result ∧ result ≠ .nan := by
  cases value with
  | number value =>
    simp only [number]
    split <;> simp_all [mismatch]
    rintro rfl
    assumption
  | _ => simp [number, mismatch]

@[simp] theorem boolean_ok_iff {value : Value} {result : Bool} :
    boolean value = .ok result ↔ value = .boolean result := by
  cases value <;> simp [boolean, mismatch]

@[simp] theorem string_ok_iff {value : Value} {result : String} :
    string value = .ok result ↔ value = .string result := by
  cases value <;> simp [string, mismatch]

end Decoder

end Typeface
