import Typeface.Proofs.Writing

/-! What the log retains. Entries are dropped only when one is written, and then as many of the oldest
as the capacity in force at that moment demands. So whatever happens to the settings between two
entries, the log holds the end of all that was written since it was last cleared, and how much of it
only the capacity tells. -/

set_option autoImplicit false

namespace Typeface

section

variable {α : Type}

theorem length_rtake (list : List α) (count : Nat) :
    (list.rtake count).length = min count list.length := by
  unfold List.rtake
  rw [List.length_drop]
  omega

theorem rtake_min_length (list : List α) (count : Nat) :
    list.rtake (min list.length count) = list.rtake count := by
  unfold List.rtake
  congr 1
  omega

theorem getLast?_rtake (list : List α) {count : Nat} (positive : 0 < count) :
    (list.rtake count).getLast? = list.getLast? := by
  unfold List.rtake
  rw [List.getLast?_drop]
  split
  next short =>
    obtain rfl : list = [] := List.eq_nil_of_length_eq_zero (by omega)
    rfl
  next => rfl

end

namespace Operation

theorem isAdministrative_iff {operation : Operation} :
    operation.isAdministrative = true ↔
      (∃ name value, operation = .assign name value) ∨ operation = .resetSettings ∨
        (∃ now, operation = .setClock now) ∨ operation = .clearLog := by
  cases operation <;> simp [isAdministrative]

end Operation

structure Record where
  entry : Entry
  capacity : Nat

namespace Engine

def recordedBy (engine : Engine) (records : List Record) : Operation → List Record
  | .clearLog => []
  | operation =>
    records ++ (engine.written operation).map fun entry => ⟨entry, engine.settings.logCapacity⟩

/-- What was written since the log was last cleared, after a run of operations. -/
def recorded (engine : Engine) (records : List Record) : List Operation → List Record
  | [] => records
  | operation :: later =>
    (engine.perform operation).2.recorded (engine.recordedBy records operation) later

def Roomy (engine : Engine) : Prop := ∀ settings ∈ engine.kept, 0 < settings.logCapacity

/-- The log holds the newest of what was recorded: so much of it as the capacity allows, if it was
always the same. -/
structure Retains (engine : Engine) (records : List Record) : Prop where
  newest : engine.log.entries.toList <:+ records.map Record.entry
  exact : ∀ capacity, (∀ record ∈ records, record.capacity = capacity) →
    engine.log.entries.toList = (records.map Record.entry).rtake capacity

variable {engine after : Engine} {records : List Record} {entries : List Entry}

theorem Roomy.logCapacity_pos (roomy : engine.Roomy) : 0 < engine.settings.logCapacity := by
  unfold settings
  cases kept : engine.kept with
  | none => exact Settings.logCapacity_ofEnvironment_pos engine.environment
  | some settings => exact roomy settings kept

theorem Roomy.wrote (roomy : engine.Roomy) (wrote : Wrote entries engine after) : after.Roomy := by
  unfold Roomy
  rcases wrote.kept with kept | ⟨kept, _⟩
  · simpa [kept] using roomy.logCapacity_pos
  · rw [kept]
    exact roomy

theorem Roomy.perform (roomy : engine.Roomy) (operation : Operation) :
    (engine.perform operation).2.Roomy := by
  cases administrative : operation.isAdministrative with
  | false => exact roomy.wrote (engine.wrote_perform administrative)
  | true =>
    rcases Operation.isAdministrative_iff.mp administrative with
      ⟨name, value, rfl⟩ | rfl | ⟨now, rfl⟩ | rfl
    · exact roomy
    · exact fun settings found => nomatch found
    · exact roomy
    · exact roomy

theorem Roomy.run (roomy : engine.Roomy) (operations : List Operation) :
    (engine.run operations).2.Roomy := by
  induction operations generalizing engine with
  | nil => exact roomy
  | cons operation later ih => exact ih (roomy.perform operation)

theorem Retains.of_log_eq (retains : engine.Retains records) (same : after.log = engine.log) :
    after.Retains records where
  newest := by
    rw [same]
    exact retains.newest
  exact := by
    rw [same]
    exact retains.exact

theorem Retains.wrote (retains : engine.Retains records) (wrote : Wrote entries engine after) :
    after.Retains (records ++ entries.map fun entry => ⟨entry, engine.settings.logCapacity⟩) := by
  by_cases nothing : entries = []
  · subst nothing
    rw [List.map_nil, List.append_nil]
    exact retains.of_log_eq wrote.log
  · have all : (records ++ entries.map fun entry => (⟨entry, engine.settings.logCapacity⟩ : Record)).map
        Record.entry = records.map Record.entry ++ entries := by simp [Function.comp_def]
    have kept := wrote.toList_log nothing
    constructor
    · rw [kept, all]
      obtain ⟨dropped, split⟩ := retains.newest
      refine (List.drop_suffix _ _).trans ⟨dropped, ?_⟩
      rw [← split, List.append_assoc]
    · intro capacity same
      obtain ⟨entry, member⟩ := List.exists_mem_of_ne_nil entries nothing
      have inForce : engine.settings.logCapacity = capacity :=
        same _ (List.mem_append_right _ (List.mem_map_of_mem member))
      have before := retains.exact capacity fun record earlier =>
        same record (List.mem_append_left _ earlier)
      rw [kept, all, inForce, before, rtake_rtake_append]

theorem recordedBy_ordinary {operation : Operation}
    (ordinary : operation.isAdministrative = false) :
    engine.recordedBy records operation = records ++
      (engine.written operation).map fun entry => ⟨entry, engine.settings.logCapacity⟩ := by
  cases operation with
  | clearLog => cases ordinary
  | _ => rfl

theorem Retains.perform (retains : engine.Retains records) (operation : Operation) :
    (engine.perform operation).2.Retains (engine.recordedBy records operation) := by
  cases administrative : operation.isAdministrative with
  | false =>
    rw [recordedBy_ordinary administrative]
    exact retains.wrote (engine.wrote_perform administrative)
  | true =>
    have silent {operation : Operation} (log : (engine.perform operation).2.log = engine.log)
        (nothing : engine.recordedBy records operation = records ++ []) :
        (engine.perform operation).2.Retains (engine.recordedBy records operation) := by
      rw [nothing, List.append_nil]
      exact retains.of_log_eq log
    rcases Operation.isAdministrative_iff.mp administrative with
      ⟨name, value, rfl⟩ | rfl | ⟨now, rfl⟩ | rfl
    · exact silent rfl rfl
    · exact silent rfl rfl
    · exact silent rfl rfl
    · exact ⟨List.suffix_refl [], fun capacity _ => (List.rtake_nil capacity).symm⟩

theorem Retains.run (retains : engine.Retains records) (operations : List Operation) :
    (engine.run operations).2.Retains (engine.recorded records operations) := by
  induction operations generalizing engine records with
  | nil => exact retains
  | cons operation later ih => exact ih (retains.perform operation)

structure Unused (engine : Engine) : Prop where
  entries : engine.log.entries = #[]
  kept : engine.kept = none

theorem Unused.roomy (unused : engine.Unused) : engine.Roomy := by
  simp [Roomy, unused.kept]

theorem Unused.retains (unused : engine.Unused) : engine.Retains [] where
  newest := by simp [unused.entries]
  exact := by simp [unused.entries]

/-- At every point of a run the log holds the end of what was written since it was last cleared; where
the capacity was the same for all of that, as much of it as the capacity allows. An operation that
writes makes the log longer by what it writes, up to the capacity, and what it wrote last is last. -/
theorem entries_newest (unused : engine.Unused) (operations : List Operation) :
    let after := (engine.run operations).2
    let records := engine.recorded [] operations
    after.log.entries.toList <:+ records.map Record.entry ∧
    (∀ capacity, (∀ record ∈ records, record.capacity = capacity) →
      after.log.entries.toList =
        (records.map Record.entry).rtake (min records.length capacity)) ∧
    ∀ operation, after.written operation ≠ [] →
      (after.perform operation).2.log.entries.size =
        min after.settings.logCapacity
          (after.log.entries.size + (after.written operation).length) ∧
      (after.perform operation).2.log.entries.toList.getLast? =
        (after.written operation).getLast? := by
  intro after records
  have retains : after.Retains records := unused.retains.run operations
  have roomy : after.Roomy := unused.roomy.run operations
  refine ⟨retains.newest, ?_, ?_⟩
  · intro capacity same
    rw [retains.exact capacity same, ← rtake_min_length, List.length_map]
  · intro operation writes
    have ordinary : operation.isAdministrative = false := by
      cases operation with
      | assign | resetSettings | setClock | clearLog => exact absurd rfl writes
      | _ => rfl
    have kept := (after.wrote_perform ordinary).toList_log writes
    constructor
    · rw [← Array.length_toList, kept, length_rtake, List.length_append, Array.length_toList]
    · rw [kept, getLast?_rtake _ roomy.logCapacity_pos, List.getLast?_append_of_ne_nil _ writes]

def note (action : String) : Operation := .write .info "Test" action none

/-- The capacity is lowered after the settings were read, which counts only once they are reset. -/
def lowering : List Operation :=
  [.assign Settings.logCapacityVariable (some "3"), note "a", note "b", note "c",
    .assign Settings.logCapacityVariable (some " 0X2 "), note "d", .resetSettings, .clearLog,
    note "e", .writeTimed .warn "Test" "f" (.ofInt 5) [], note "g"]

theorem entries_newest_lowering :
    initial.Unused ∧
      (initial.recorded [] lowering).map (fun record => (record.entry.action, record.capacity)) =
        [("e", 2), ("f", 2), ("g", 2)] ∧
      (initial.run lowering).2.log.entries.toList.map Entry.action = ["f", "g"] ∧
      ((initial.run lowering).2.perform (note "h")).2.log.entries.size = 2 := by
  have unused : initial.Unused := ⟨rfl, rfl⟩
  obtain ⟨_, exact, writing⟩ := entries_newest unused lowering
  have records : (initial.recorded [] lowering).map
      (fun record => (record.entry.action, record.capacity)) = [("e", 2), ("f", 2), ("g", 2)] := by
    decide +kernel
  have capacities : ∀ record ∈ initial.recorded [] lowering, record.capacity = 2 := by
    decide +kernel
  refine ⟨unused, records, ?_, ?_⟩
  · rw [exact 2 capacities]
    decide +kernel
  · rw [(writing (note "h") (List.cons_ne_nil _ _)).1]
    decide +kernel

end Engine

end Typeface
