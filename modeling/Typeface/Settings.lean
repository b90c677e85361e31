import Typeface.Level
import Typeface.Number.Numeral
import Typeface.Text

/-! Settings and how they are read from an environment. Blanks around a value and its letter case do
not count, and a value that is missing or denotes nothing leaves the setting at its default, so
reading never fails and the settings do not depend on each other. -/

set_option autoImplicit false

namespace Typeface

/-- How untyped input is treated: rejected input is an error, or is replaced with a warning. -/
inductive Mode where
  | strict
  | lenient
  deriving DecidableEq, Repr

def Mode.all : List Mode := [.strict, .lenient]

theorem Mode.mem_all (mode : Mode) : mode ∈ Mode.all := by cases mode <;> decide

def Mode.name : Mode → String
  | .strict => "strict"
  | .lenient => "lenient"

abbrev Environment := String → Option String

def Environment.assign (environment : Environment) (name : String) (value : Option String) :
    Environment := fun other => if other = name then value else environment other

structure Settings where
  -- Entries below it are not written to the console.
  threshold : Threshold
  mode : Mode
  logCapacity : Nat
  deriving DecidableEq, Repr

namespace Settings

def thresholdVariable : String := "FONT_STYLE_LOG_LEVEL"

def modeVariable : String := "FONT_STYLE_VALIDATION_MODE"

def logCapacityVariable : String := "FONT_STYLE_LOG_CAPACITY"

def default : Settings := ⟨.atLeast .warn, .lenient, 500⟩

def plainText (text : String) : List Char := Text.lower (Text.trim text.toList)

def named? {α : Type} (options : List α) (name : α → String) (text : List Char) : Option α :=
  options.find? fun option => (name option).toList = text

def capacity? (text : List Char) : Option Nat :=
  ((Numeral.read? text).bind Number.toInt?).bind fun count =>
    if 0 < count then some count.toNat else none

theorem capacity?_pos {text : List Char} {count : Nat} (found : capacity? text = some count) :
    0 < count := by
  simp only [capacity?, Option.bind_eq_some_iff, Option.ite_none_right_eq_some,
    Option.some.injEq] at found
  obtain ⟨value, _, positive, rfl⟩ := found
  omega

/-- What a variable's text denotes, or else the default. -/
def choose {α : Type} (read? : List Char → Option α) (fallback : α) (text : Option String) : α :=
  (text.bind fun text => read? (plainText text)).getD fallback

def ofEnvironment (environment : Environment) : Settings where
  threshold := choose (named? Threshold.all Threshold.name) default.threshold
    (environment thresholdVariable)
  mode := choose (named? Mode.all Mode.name) default.mode (environment modeVariable)
  logCapacity := choose capacity? default.logCapacity (environment logCapacityVariable)

theorem logCapacity_ofEnvironment_pos (environment : Environment) :
    0 < (ofEnvironment environment).logCapacity := by
  show 0 < choose capacity? default.logCapacity (environment logCapacityVariable)
  unfold choose
  cases found : (environment logCapacityVariable).bind fun text => capacity? (plainText text) with
  | none => exact Nat.zero_lt_succ _
  | some count =>
    obtain ⟨text, _, read⟩ := Option.bind_eq_some_iff.mp found
    exact capacity?_pos read

end Settings

end Typeface
