import Typeface.Number.Basic

/-! Untyped data: what configuration files, messages and decoded font tables are made of. A value
may also be absent, as a member that an object does not have. -/

set_option autoImplicit false

namespace Typeface

inductive Value where
  | absent
  | null
  | boolean (value : Bool)
  | number (value : Number)
  | string (value : String)
  | array (elements : List Value)
  | object (members : List (String × Value))

/-- The kind of a value. What is not a number has a kind of its own, apart from the numbers. -/
inductive Kind where
  | absent
  | null
  | boolean
  | nan
  | number
  | string
  | array
  | object
  deriving DecidableEq, Repr

def Kind.name : Kind → String
  | .absent => "undefined"
  | .null => "null"
  | .boolean => "boolean"
  | .nan => "nan"
  | .number => "number"
  | .string => "string"
  | .array => "array"
  | .object => "object"

namespace Value

instance : Inhabited Value := ⟨.absent⟩

def kind : Value → Kind
  | .absent => .absent
  | .null => .null
  | .boolean _ => .boolean
  | .number value => if value = .nan then .nan else .number
  | .string _ => .string
  | .array _ => .array
  | .object _ => .object

def member (name : String) : Value → Value
  | .object members => (members.lookup name).getD .absent
  | _ => .absent

def ofOption {α : Type} (write : α → Value) : Option α → Value
  | none => .absent
  | some value => write value

end Value

end Typeface
