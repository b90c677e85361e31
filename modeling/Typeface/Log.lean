import Typeface.Settings
import Typeface.Value

/-! The log: the newest entries are kept, up to the capacity, and entries that pass the threshold
are written to the console as well. What the console has shown does not depend on what is kept. -/

set_option autoImplicit false

namespace Typeface

abbrev Metadata := List (String × Value)

structure Entry where
  timestamp : Number
  level : Level
  component : String
  action : String
  metadata : Option Metadata

inductive Channel where
  | log
  | warn
  | error
  | debug
  deriving DecidableEq, Repr

def Channel.name : Channel → String
  | .log => "log"
  | .warn => "warn"
  | .error => "error"
  | .debug => "debug"

def Level.channel : Level → Channel
  | .debug => .debug
  | .info => .log
  | .warn => .warn
  | .error => .error

structure Line where
  channel : Channel
  message : String
  data : Metadata

def Entry.line (entry : Entry) : Line where
  channel := entry.level.channel
  message := "[" ++ entry.component ++ "] " ++ entry.action
  data := entry.metadata.getD []

structure Log where
  -- Oldest first.
  entries : Array Entry
  -- All that was written, oldest first.
  console : Array Line

namespace Log

def empty : Log := ⟨#[], #[]⟩

def newest (capacity : Nat) (entries : Array Entry) : Array Entry :=
  -- The array is copied only when there is something to drop.
  if entries.size ≤ capacity then entries else entries.extract (entries.size - capacity)

theorem toList_newest (capacity : Nat) (entries : Array Entry) :
    (newest capacity entries).toList = entries.toList.drop (entries.size - capacity) := by
  unfold newest
  split
  next fits => simp [Nat.sub_eq_zero_of_le fits]
  next => simp [List.take_of_length_le]

def write (log : Log) (settings : Settings) (entry : Entry) : Log where
  entries := newest settings.logCapacity (log.entries.push entry)
  console := if settings.threshold.Admits entry.level then log.console.push entry.line else log.console

theorem toList_entries_write (log : Log) (settings : Settings) (entry : Entry) :
    (log.write settings entry).entries.toList =
      (log.entries.toList ++ [entry]).drop (log.entries.size + 1 - settings.logCapacity) := by
  simp [write, toList_newest]

/-- Forgets the entries. What was written to the console stays written. -/
def clear (log : Log) : Log := { log with entries := #[] }

end Log

namespace Metadata

/-- A value under a name, in the place of the one that is there or else at the end. -/
def put (name : String) (value : Value) : Metadata → Metadata
  | [] => [(name, value)]
  | (other, held) :: rest =>
    if other = name then (name, value) :: rest else (other, held) :: put name value rest

def timed (metadata : Metadata) (now start : Number) : Metadata :=
  metadata.put "duration" (.number (now - start))

end Metadata

end Typeface
