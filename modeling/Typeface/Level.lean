/-! Severities of log entries, and the threshold from which they reach the console. -/

set_option autoImplicit false

namespace Typeface

inductive Level where
  | debug
  | info
  | warn
  | error
  deriving DecidableEq, Repr

namespace Level

def rank : Level → Nat
  | .debug => 0
  | .info => 1
  | .warn => 2
  | .error => 3

def all : List Level := [.debug, .info, .warn, .error]

def name : Level → String
  | .debug => "debug"
  | .info => "info"
  | .warn => "warn"
  | .error => "error"

end Level

inductive Threshold where
  | atLeast (level : Level)
  | silent
  deriving DecidableEq, Repr

namespace Threshold

def all : List Threshold := Level.all.map .atLeast ++ [.silent]

theorem mem_all (threshold : Threshold) : threshold ∈ all := by
  rcases threshold with level | _
  · cases level <;> decide
  · decide

def name : Threshold → String
  | .atLeast level => level.name
  | .silent => "silent"

def Admits : Threshold → Level → Prop
  | .atLeast least, level => least.rank ≤ level.rank
  | .silent, _ => False

instance (threshold : Threshold) (level : Level) : Decidable (threshold.Admits level) :=
  match threshold with
  | .atLeast least => inferInstanceAs (Decidable (least.rank ≤ level.rank))
  | .silent => inferInstanceAs (Decidable False)

end Threshold

end Typeface
