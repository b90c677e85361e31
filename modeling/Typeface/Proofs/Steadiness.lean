import Typeface.Proofs.Writing

/-! Runs in which the environment does not change and the settings are not reset. The settings in force are
then the same all the way, whether they were read before, are read in the run or are never read. So all that
such a run hands to the log is written under the settings that were in force at its start. -/

set_option autoImplicit false

namespace Typeface

namespace Operation

def isSteady : Operation → Bool
  | .assign _ _ | .resetSettings => false
  | _ => true

def timeAfter (now : Number) : Operation → Number
  | .setClock later => later
  | _ => now

end Operation

namespace Engine

/-- All that a run hands to the log, oldest first, also what the log has dropped since or does not show. -/
def logged (engine : Engine) : List Operation → List Entry
  | [] => []
  | operation :: later =>
    engine.written operation ++ (engine.perform operation).2.logged later

variable {operation : Operation} {operations : List Operation}

theorem clock_perform (engine : Engine) (operation : Operation) :
    (engine.perform operation).2.clock = operation.timeAfter engine.clock := by
  cases operation with
  | assign | resetSettings | setClock | clearLog => rfl
  | _ => exact (engine.wrote_perform rfl).clock

theorem settings_perform (engine : Engine) (steady : operation.isSteady = true) :
    (engine.perform operation).2.settings = engine.settings := by
  cases administrative : operation.isAdministrative with
  | false => exact (engine.wrote_perform administrative).settings
  | true =>
    cases operation with
    | assign | resetSettings => cases steady
    | setClock | clearLog => rfl
    | _ => cases administrative

theorem settings_run (engine : Engine)
    (steady : ∀ operation ∈ operations, operation.isSteady = true) :
    (engine.run operations).2.settings = engine.settings := by
  induction operations generalizing engine with
  | nil => rfl
  | cons operation later ih =>
    obtain ⟨first, rest⟩ := List.forall_mem_cons.mp steady
    exact (ih (engine.perform operation).2 rest).trans (engine.settings_perform first)

theorem log_perform (engine : Engine) (steady : operation.isSteady = true)
    (kept : operation ≠ .clearLog) :
    (engine.perform operation).2.log =
      engine.log.writeAll engine.settings (engine.written operation) := by
  cases administrative : operation.isAdministrative with
  | false => exact (engine.wrote_perform administrative).log
  | true =>
    cases operation with
    | assign | resetSettings => cases steady
    | setClock => rfl
    | clearLog => exact absurd rfl kept
    | _ => cases administrative

/-- As long as the log is not cleared, a steady run writes to it as if it were one operation. -/
theorem log_run (engine : Engine) (steady : ∀ operation ∈ operations, operation.isSteady = true)
    (kept : .clearLog ∉ operations) :
    (engine.run operations).2.log =
      engine.log.writeAll engine.settings (engine.logged operations) := by
  induction operations generalizing engine with
  | nil => rfl
  | cons operation later ih =>
    obtain ⟨first, rest⟩ := List.forall_mem_cons.mp steady
    obtain ⟨keeps, keepsLater⟩ := List.ne_and_not_mem_of_not_mem_cons kept
    have after := ih (engine.perform operation).2 rest keepsLater
    rw [engine.settings_perform first, engine.log_perform first keeps.symm,
      ← Log.writeAll_append] at after
    exact after

end Engine

end Typeface
