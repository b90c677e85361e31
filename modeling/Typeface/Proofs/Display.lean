import Mathlib.Data.List.Forall2
import Typeface.Proofs.Consultation
import Typeface.Proofs.Retention
import Typeface.Proofs.Steadiness

/-! What is shown on the console and what is retained in the log. Both come from the same entries, and apart
from these the console goes by the threshold alone and the log by the capacity alone. So in a steady run the
one does not tell what is set for the other. -/

set_option autoImplicit false

namespace Typeface

/-- The line shows an entry. There is no channel for information, so this goes to the general one. -/
structure Line.Shows (line : Line) (entry : Entry) : Prop where
  channel : line.channel.name = if entry.level = .info then "log" else entry.level.name
  message : line.message = "[" ++ entry.component ++ "] " ++ entry.action
  data : line.data = entry.metadata.getD []

theorem Entry.line_shows (entry : Entry) : entry.line.Shows entry where
  channel := by cases level : entry.level <;> simp only [line, level] <;> rfl
  message := rfl
  data := rfl

namespace Settings

def admitted (settings : Settings) (entries : List Entry) : List Entry :=
  entries.filter fun entry => settings.threshold.Admits entry.level

theorem admitted_append (settings : Settings) (first rest : List Entry) :
    settings.admitted (first ++ rest) = settings.admitted first ++ settings.admitted rest :=
  List.filter_append first rest

def shown (settings : Settings) (entries : List Entry) : List Line :=
  (settings.admitted entries).map Entry.line

theorem shown_append (settings : Settings) (first rest : List Entry) :
    settings.shown (first ++ rest) = settings.shown first ++ settings.shown rest := by
  rw [shown, admitted_append, List.map_append]
  rfl

theorem shows_shown (settings : Settings) (entries : List Entry) :
    List.Forall₂ Line.Shows (settings.shown entries) (settings.admitted entries) :=
  List.forall₂_map_left_iff.mpr (List.forall₂_same.mpr fun entry _ => entry.line_shows)

end Settings

namespace Log

theorem console_write (log : Log) (settings : Settings) (entry : Entry) :
    (log.write settings entry).console.toList = log.console.toList ++ settings.shown [entry] := by
  by_cases passes : settings.threshold.Admits entry.level <;>
    simp [write, Settings.shown, Settings.admitted, passes]

theorem console_writeAll (log : Log) (settings : Settings) (entries : List Entry) :
    (log.writeAll settings entries).console.toList =
      log.console.toList ++ settings.shown entries := by
  induction entries generalizing log with
  | nil => exact (List.append_nil _).symm
  | cons entry rest ih =>
    have later := ih (log.write settings entry)
    rw [console_write, List.append_assoc, ← Settings.shown_append] at later
    exact later

theorem entries_writeAll_congr {log other : Log} {settings others : Settings}
    (capacity : settings.logCapacity = others.logCapacity) (same : log.entries = other.entries)
    (entries : List Entry) :
    (log.writeAll settings entries).entries = (other.writeAll others entries).entries := by
  induction entries generalizing log other with
  | nil => exact same
  | cons entry rest ih =>
    refine ih ?_
    simp only [write, capacity, same]

theorem entries_writeAll_suffix (log : Log) (settings : Settings) (entries : List Entry) :
    (log.writeAll settings entries).entries.toList <:+ log.entries.toList ++ entries := by
  by_cases nothing : entries = []
  · rw [nothing, List.append_nil]
    exact List.suffix_refl _
  · rw [log.toList_writeAll settings nothing]
    exact List.drop_suffix _ _

end Log

namespace Engine

/-- The engines are at the same time, hold the same in their registries and check input in the same mode.
They may differ in the threshold and the capacity, and in all that has been logged and shown. -/
structure Abreast (left right : Engine) : Prop where
  clock : left.clock = right.clock
  registries : left.registries = right.registries
  mode : left.settings.mode = right.settings.mode

section

variable (engine : Engine) (families : List Family) (id : RegistryId)

theorem installDefault_fst :
    (engine.installDefault families id).1 =
      (engine.resolve .fromFontTable (.ofFamilies families) id).1 := by
  unfold installDefault
  split
  next failed => rw [failed]
  next found => rw [found]

theorem registries_installDefault :
    (engine.installDefault families id).2.registries =
      match (engine.resolve .fromFontTable (.ofFamilies families) id).1 with
      | .error _ => engine.registries
      | .ok identity => (engine.setContent id (some identity)).registries := by
  have undisturbed := engine.undisturbed_resolve .fromFontTable (.ofFamilies families) id
  unfold installDefault
  split
  next fault after failed =>
    rw [failed] at undisturbed ⊢
    exact undisturbed.registries
  next identity after found =>
    rw [found] at undisturbed ⊢
    have same : after.registries = engine.registries := undisturbed.registries
    simp only [registries_write, setContent, putRegistry, registry, same]

end

namespace Abreast

variable {left right : Engine} (abreast : Abreast left right)
include abreast

theorem validate_fst {α : Type} (decode : Decoder α) (input : Value) (fallback : α)
    (mode : Option Mode) :
    (left.validate decode input fallback mode).1 = (right.validate decode input fallback mode).1 := by
  have given (mode : Mode) : (left.validate decode input fallback (some mode)).1 =
      (right.validate decode input fallback (some mode)).1 := by
    simp only [validate]
    cases decode input with
    | ok data => rfl
    | error issues => cases mode <;> rfl
  cases mode with
  | some mode => exact given mode
  | none => rw [validate_none_fst, validate_none_fst, abreast.mode, given]

theorem parseRequest_fst (input : Value) (mode : Option Mode) :
    (left.parseRequest input mode).1 = (right.parseRequest input mode).1 :=
  congrArg (Except.map Verdict.data) (abreast.validate_fst _ input _ mode)

theorem resolve_fst (request : Request) (source : Source) (id : RegistryId) :
    (left.resolve request source id).1 = (right.resolve request source id).1 := by
  rw [Engine.resolve_fst, Engine.resolve_fst, registry, abreast.registries, registry]

theorem warning {α : Type} (decode : Decoder α) (input : Value) (mode : Option Mode) :
    left.warning decode input mode = right.warning decode input mode := by
  simp only [Engine.warning, abreast.clock, abreast.mode]

theorem written (operation : Operation) : left.written operation = right.written operation := by
  cases operation with
  | write | writeTimed | readVariant => simp only [Engine.written, abreast.clock]
  | resolve => simp only [Engine.written, abreast.clock, abreast.resolve_fst]
  | resolveFamilies => simp only [Engine.written, abreast.clock, resolveFamilies_fst]
  | installDefault =>
    simp only [Engine.written, abreast.clock, installDefault_fst, abreast.resolve_fst]
  | resolveUntyped =>
    simp only [Engine.written, abreast.clock, abreast.warning, abreast.parseRequest_fst,
      abreast.resolve_fst]
  | validate | parseRequest | parseStyle => exact abreast.warning _ _ _
  | _ => rfl

theorem registries_perform (operation : Operation) :
    (left.perform operation).2.registries = (right.perform operation).2.registries := by
  cases moves : operation.moved? with
  | none =>
    rw [(left.undisturbed_perform moves).registries, (right.undisturbed_perform moves).registries,
      abreast.registries]
  | some id =>
    cases operation with
    | openRegistry | setContent | subscribe | unsubscribe =>
      simp only [perform, setContent, putRegistry, registry, abreast.registries]
    | installDefault families id =>
      simp only [perform, answered, registries_installDefault, abreast.resolve_fst, setContent,
        putRegistry, registry, abreast.registries]
    | _ => cases moves

theorem perform {operation : Operation} (steady : operation.isSteady = true) :
    Abreast (left.perform operation).2 (right.perform operation).2 where
  clock := by rw [clock_perform, clock_perform, abreast.clock]
  registries := abreast.registries_perform operation
  mode := by rw [settings_perform left steady, settings_perform right steady, abreast.mode]

theorem logged {operations : List Operation}
    (steady : ∀ operation ∈ operations, operation.isSteady = true) :
    left.logged operations = right.logged operations := by
  induction operations generalizing left right with
  | nil => rfl
  | cons operation later ih =>
    obtain ⟨first, rest⟩ := List.forall_mem_cons.mp steady
    rw [Engine.logged, Engine.logged, abreast.written, ih (abreast.perform first) rest]

theorem entries_perform {operation : Operation} (steady : operation.isSteady = true)
    (capacity : left.settings.logCapacity = right.settings.logCapacity)
    (same : left.log.entries = right.log.entries) :
    (left.perform operation).2.log.entries = (right.perform operation).2.log.entries := by
  by_cases clears : operation = .clearLog
  · rw [clears]
    rfl
  · rw [log_perform left steady clears, log_perform right steady clears, abreast.written]
    exact Log.entries_writeAll_congr capacity same _

/-- As long as the capacity is the same, what is retained does not tell the threshold. -/
theorem entries_run {operations : List Operation}
    (steady : ∀ operation ∈ operations, operation.isSteady = true)
    (capacity : left.settings.logCapacity = right.settings.logCapacity)
    (same : left.log.entries = right.log.entries) :
    (left.run operations).2.log.entries = (right.run operations).2.log.entries := by
  induction operations generalizing left right with
  | nil => exact same
  | cons operation later ih =>
    obtain ⟨first, rest⟩ := List.forall_mem_cons.mp steady
    have still : (left.perform operation).2.settings.logCapacity =
        (right.perform operation).2.settings.logCapacity := by
      rw [settings_perform left first, settings_perform right first, capacity]
    exact ih (abreast.perform first) rest still (abreast.entries_perform first capacity same)

end Abreast

variable {operation : Operation} {operations : List Operation}

theorem console_perform (engine : Engine) (steady : operation.isSteady = true) :
    (engine.perform operation).2.log.console.toList =
      engine.log.console.toList ++ engine.settings.shown (engine.written operation) := by
  by_cases clears : operation = .clearLog
  · -- The console is not cleared with the log.
    rw [clears]
    exact (List.append_nil _).symm
  · rw [engine.log_perform steady clears, Log.console_writeAll]

theorem console_run (engine : Engine) (steady : ∀ operation ∈ operations, operation.isSteady = true) :
    (engine.run operations).2.log.console.toList =
      engine.log.console.toList ++ engine.settings.shown (engine.logged operations) := by
  induction operations generalizing engine with
  | nil => exact (List.append_nil _).symm
  | cons operation later ih =>
    obtain ⟨first, rest⟩ := List.forall_mem_cons.mp steady
    have after := ih (engine.perform operation).2 rest
    rw [engine.settings_perform first, engine.console_perform first, List.append_assoc,
      ← Settings.shown_append] at after
    exact after

theorem entries_perform_suffix (engine : Engine) (steady : operation.isSteady = true) :
    (engine.perform operation).2.log.entries.toList <:+
      engine.log.entries.toList ++ engine.written operation := by
  by_cases clears : operation = .clearLog
  · rw [clears]
    exact List.nil_suffix
  · rw [engine.log_perform steady clears]
    exact Log.entries_writeAll_suffix _ _ _

theorem entries_run_suffix (engine : Engine)
    (steady : ∀ operation ∈ operations, operation.isSteady = true) :
    (engine.run operations).2.log.entries.toList <:+
      engine.log.entries.toList ++ engine.logged operations := by
  induction operations generalizing engine with
  | nil => exact ⟨[], (List.append_nil _).symm⟩
  | cons operation later ih =>
    obtain ⟨first, rest⟩ := List.forall_mem_cons.mp steady
    obtain ⟨dropped, split⟩ := engine.entries_perform_suffix first
    refine (ih (engine.perform operation).2 rest).trans ⟨dropped, ?_⟩
    rw [logged, ← List.append_assoc, split, List.append_assoc]

variable {left right : Engine}

/-- In a steady run the settings in force stay the same, the log retains the end of what it is handed, and the
console shows all of it that passes the threshold, entry by entry. Engines that are abreast hand over the
same: so what they retain is the same under the same capacity, whatever their thresholds are, and what they
show is the same under the same threshold, whatever their capacities are. -/
theorem run_shows_and_retains (abreast : Abreast left right)
    (steady : ∀ operation ∈ operations, operation.isSteady = true) :
    let entries := left.logged operations
    entries = right.logged operations ∧
    (left.run operations).2.settings = left.settings ∧
    (left.settings.logCapacity = right.settings.logCapacity → left.log.entries = right.log.entries →
      (left.run operations).2.log.entries = (right.run operations).2.log.entries) ∧
    (left.settings.threshold = right.settings.threshold → left.log.console = right.log.console →
      (left.run operations).2.log.console = (right.run operations).2.log.console) ∧
    (left.run operations).2.log.entries.toList <:+ left.log.entries.toList ++ entries ∧
    ∃ lines, (left.run operations).2.log.console.toList = left.log.console.toList ++ lines ∧
      List.Forall₂ Line.Shows lines (left.settings.admitted entries) := by
  intro entries
  have alike : left.logged operations = right.logged operations := abreast.logged steady
  refine ⟨alike, left.settings_run steady, abreast.entries_run steady, ?_, left.entries_run_suffix steady,
    _, left.console_run steady, left.settings.shows_shown entries⟩
  intro threshold same
  have shows : left.settings.shown = right.settings.shown := by
    funext entries
    rw [Settings.shown, Settings.admitted, threshold]
    rfl
  apply Array.ext'
  rw [left.console_run steady, right.console_run steady, alike, same, shows]

def tuned (threshold capacity : String) : Engine :=
  (initial.run [.assign Settings.thresholdVariable (some threshold),
    .assign Settings.logCapacityVariable (some capacity)]).2

def bulletins : List Operation :=
  [.write .info "Test" "first" none, .write .error "Test" "second" (some [("code", .number .nan)]),
    .installDefault [⟨"Sans", [.plain 400 .upright]⟩] 0, .write .debug "Test" "last" none]

theorem run_shows_and_retains_bulletins :
    (∀ operation ∈ bulletins, operation.isSteady = true) ∧
      Abreast (tuned "info" "2") (tuned "silent" "2") ∧
      Abreast (tuned "info" "2") (tuned "info" "7") ∧
      ((tuned "info" "2").run bulletins).2.log.entries =
        ((tuned "silent" "2").run bulletins).2.log.entries ∧
      ((tuned "info" "2").run bulletins).2.log.console =
        ((tuned "info" "7").run bulletins).2.log.console ∧
      ((tuned "info" "2").run bulletins).2.log.console.size = 3 := by
  have steady : ∀ operation ∈ bulletins, operation.isSteady = true := by decide
  have silenced : Abreast (tuned "info" "2") (tuned "silent" "2") := ⟨rfl, rfl, by decide +kernel⟩
  have widened : Abreast (tuned "info" "2") (tuned "info" "7") := ⟨rfl, rfl, by decide +kernel⟩
  obtain ⟨_, _, retained, _, _⟩ := run_shows_and_retains silenced steady
  obtain ⟨_, _, _, shown, _, lines, console, shows⟩ := run_shows_and_retains widened steady
  refine ⟨steady, silenced, widened, retained (by decide +kernel) rfl, shown (by decide +kernel) rfl, ?_⟩
  rw [← Array.length_toList, console, List.length_append, shows.length_eq]
  decide +kernel

end Engine

end Typeface
