import Mathlib.Data.List.DropRight
import Typeface.Proofs.Failure
import Typeface.Proofs.Leniency
import Typeface.Proofs.Replay

/-! When a change of the environment takes effect. The settings are looked up in the environment by the first
operation that consults them: one that is asked for them, that checks input without a mode of its own, or that
writes to the log. They are then kept for all operations until they are reset. So what an operation goes by
depends on two moments only, the last reset and the first consultation since. -/

set_option autoImplicit false

namespace Typeface

namespace Operation

def asks : Operation → Bool
  | .settings | .resolveUntyped _ none _ _ | .validate _ _ _ none | .parseRequest _ none
  | .parseStyle _ none => true
  | _ => false

def isReset : Operation → Bool
  | .resetSettings => true
  | _ => false

def inMode (mode : Mode) : Operation → Operation
  | .resolveUntyped input none source id => .resolveUntyped input (some mode) source id
  | .validate schema input fallback none => .validate schema input fallback (some mode)
  | .parseRequest input none => .parseRequest input (some mode)
  | .parseStyle input none => .parseStyle input (some mode)
  | operation => operation

def environmentAfter (environment : Environment) : Operation → Environment
  | .assign name value => environment.assign name value
  | _ => environment

end Operation

structure Moment where
  operation : Operation
  environment : Environment
  -- The operation consults the settings.
  consults : Bool

/-- The first consultation since the last reset. -/
def firstConsultation? (moments : List Moment) : Option Moment :=
  (moments.rtakeWhile (!·.operation.isReset)).find? (·.consults)

theorem firstConsultation?_concat_reset {moment : Moment} (resets : moment.operation.isReset = true)
    (earlier : List Moment) : firstConsultation? (earlier ++ [moment]) = none := by
  rw [firstConsultation?, List.rtakeWhile_concat_neg _ _ _ (by simp [resets])]
  rfl

theorem firstConsultation?_concat {moment : Moment} (keeps : moment.operation.isReset = false)
    (earlier : List Moment) :
    firstConsultation? (earlier ++ [moment]) =
      (firstConsultation? earlier).or (if moment.consults then some moment else none) := by
  rw [firstConsultation?, List.rtakeWhile_concat_pos _ _ _ (by simp [keeps]), List.find?_append,
    List.find?_singleton]
  rfl

theorem firstConsultation?_append {earlier later : List Moment} {moment : Moment}
    (found : firstConsultation? earlier = some moment)
    (keeps : ∀ moment ∈ later, moment.operation.isReset = false) :
    firstConsultation? (earlier ++ later) = some moment := by
  induction later using List.reverseRecOn with
  | nil => rw [List.append_nil, found]
  | append_singleton later last ih =>
    obtain ⟨keepsLater, keepsLast⟩ := List.forall_mem_append.mp keeps
    rw [← List.append_assoc, firstConsultation?_concat (keepsLast last List.mem_cons_self),
      ih keepsLater, Option.some_or]

namespace Engine

/-- The operation consults the settings: it asks for them, or it writes to the log. -/
def consults (engine : Engine) (operation : Operation) : Bool :=
  operation.asks || !(engine.written operation).isEmpty

def history (engine : Engine) : List Operation → List Moment
  | [] => []
  | operation :: later =>
    ⟨operation, engine.environment, engine.consults operation⟩ ::
      (engine.perform operation).2.history later

/-- The environment that counts after a run: that of the first consultation since the last reset, or the
one that there is now, if nothing has been consulted since. -/
def consulted (engine : Engine) (operations : List Operation) : Environment :=
  match firstConsultation? (engine.history operations) with
  | some moment => moment.environment
  | none => (engine.run operations).2.environment

/-- The operation goes by the settings: it answers with them, writes to the log under them, and where it has
no mode of its own it does what it does in theirs. -/
structure GoesBy (settings : Settings) (engine : Engine) (operation : Operation) : Prop where
  answer : operation = .settings → (engine.perform operation).1 = .ok (.settings settings)
  log : operation.isAdministrative = false →
    (engine.perform operation).2.log = engine.log.writeAll settings (engine.written operation)
  result : (engine.perform operation).1 = (engine.perform (operation.inMode settings.mode)).1
  written : engine.written operation = engine.written (operation.inMode settings.mode)

section

variable {before after : Engine} {entries : List Entry}

theorem Wrote.kept_of_nonempty (wrote : Wrote entries before after) (nonempty : entries ≠ []) :
    after.kept = some before.settings :=
  wrote.kept.resolve_right fun unread => nonempty unread.2

theorem Wrote.kept_of_some (wrote : Wrote entries before after) {settings : Settings}
    (kept : before.kept = some settings) : after.kept = some settings := by
  have same : before.settings = settings := by rw [Engine.settings, kept]; rfl
  rcases wrote.kept with now | ⟨still, _⟩
  · rw [now, same]
  · rw [still, kept]

end

variable (engine : Engine) {operation : Operation}

theorem perform_of_asks (asks : operation.asks = true) :
    engine.perform operation =
      engine.keepSettings.perform (operation.inMode engine.settings.mode) := by
  cases operation with
  | settings => rfl
  | resolveUntyped input mode source id => cases mode with
    | none => rfl
    | some mode => cases asks
  | validate schema input fallback mode => cases mode with
    | none => rfl
    | some mode => cases asks
  | parseRequest input mode => cases mode with
    | none => rfl
    | some mode => cases asks
  | parseStyle input mode => cases mode with
    | none => rfl
    | some mode => cases asks
  | _ => cases asks

theorem kept_of_asks (asks : operation.asks = true) :
    (engine.perform operation).2.kept = some engine.settings := by
  have ordinary : (operation.inMode engine.settings.mode).isAdministrative = false := by
    cases operation with
    | resolveUntyped _ mode | validate _ _ _ mode | parseRequest _ mode | parseStyle _ mode =>
      cases mode <;> rfl
    | settings => rfl
    | _ => cases asks
  rw [engine.perform_of_asks asks]
  exact (engine.keepSettings.wrote_perform ordinary).kept_of_some rfl

section

variable {now : Number} {kind : String} {result : Except Fault Identity}

theorem exists_error_of_tracing (nothing : tracing now kind result = []) :
    ∃ fault, result = .error fault := by
  cases result with
  | error fault => exact ⟨fault, rfl⟩
  | ok identity => cases nothing

theorem exists_error_of_installing {families : List Family}
    (nothing : installing now families result = []) : ∃ fault, result = .error fault := by
  cases result with
  | error fault => exact ⟨fault, rfl⟩
  | ok identity => cases nothing

theorem traced_of_error {fault : Fault} (failed : result = .error fault) :
    (engine.traced kind result).2 = engine := by
  rw [failed]
  rfl

end

theorem resolveFamilies_of_error {families : List Family} {weight : Wanted Number}
    {italic : Wanted Bool} {id : RegistryId} {fault : Fault}
    (failed : (engine.resolveFamilies families weight italic id).1 = .error fault) :
    (engine.resolveFamilies families weight italic id).2 = engine := by
  unfold resolveFamilies at failed ⊢
  split at failed <;> exact engine.traced_of_error (by simpa using failed)

theorem validate_of_warning {α : Type} {decode : Decoder α} {input : Value} {mode : Mode}
    (nothing : engine.warning decode input (some mode) = []) (fallback : α) :
    (engine.validate decode input fallback (some mode)).2 = engine := by
  cases found : decode input with
  | ok data => rw [validate_of_ok found]
  | error issues =>
    cases mode with
    | strict => rw [validate_strict_of_error found]
    | lenient =>
      rw [warning_of_error found rfl] at nothing
      cases nothing

theorem resolveUntyped_of_written {input : Value} {mode : Mode} {source : Source} {id : RegistryId}
    (nothing : engine.written (.resolveUntyped input (some mode) source id) = []) :
    (engine.resolveUntyped input (some mode) source id).2 = engine := by
  obtain ⟨unwarned, untraced⟩ := List.append_eq_nil_iff.mp nothing
  have parsed : (engine.parseRequest input (some mode)).2 = engine :=
    engine.validate_of_warning unwarned _
  unfold resolveUntyped
  split
  next fault middle failed =>
    rw [failed] at parsed
    exact parsed
  next request middle accepted =>
    rw [accepted] at parsed untraced
    obtain rfl : middle = engine := parsed
    obtain ⟨fault, failed⟩ := exists_error_of_tracing untraced
    exact (middle.resolve_failsCleanly request source id).unchanged fault failed

theorem kept_of_silent (keeps : operation.isReset = false)
    (silent : engine.consults operation = false) :
    (engine.perform operation).2.kept = engine.kept := by
  obtain ⟨unasked, unwritten⟩ := Bool.or_eq_false_iff.mp silent
  have nothing : engine.written operation = [] := by simpa using unwritten
  cases operation with
  | resetSettings => cases keeps
  | settings => cases unasked
  | write | writeTimed => cases nothing
  | resolve request source id =>
    obtain ⟨fault, failed⟩ := exists_error_of_tracing nothing
    exact congrArg kept ((engine.resolve_failsCleanly request source id).unchanged fault failed)
  | resolveFamilies families weight italic id =>
    obtain ⟨fault, failed⟩ := exists_error_of_tracing nothing
    exact congrArg kept (engine.resolveFamilies_of_error failed)
  | installDefault families id =>
    obtain ⟨fault, failed⟩ := exists_error_of_installing nothing
    exact congrArg kept ((engine.installDefault_failsCleanly families id).unchanged fault failed)
  | resolveUntyped input mode source id =>
    cases mode with
    | none => cases unasked
    | some mode => exact congrArg kept (engine.resolveUntyped_of_written nothing)
  | validate schema input fallback mode =>
    cases mode with
    | none => cases unasked
    | some mode => exact congrArg kept (engine.validate_of_warning nothing fallback)
  | parseRequest input mode =>
    cases mode with
    | none => cases unasked
    | some mode => exact congrArg kept (engine.validate_of_warning nothing Request.fallback)
  | parseStyle input mode =>
    cases mode with
    | none => cases unasked
    | some mode => exact congrArg kept (engine.validate_of_warning nothing Style.regular)
  | readVariant fileName font =>
    simp only [written, perform, answered, readVariant] at nothing ⊢
    cases found : openFace fileName font with
    | error fault => rfl
    | ok face =>
      rw [found] at nothing
      exact absurd nothing (List.append_ne_nil_of_right_ne_nil _ (List.cons_ne_nil _ _))
  | _ => rfl

theorem isAdministrative_of_written (writes : engine.written operation ≠ []) :
    operation.isAdministrative = false := by
  cases operation with
  | assign | resetSettings | setClock | clearLog => exact absurd rfl writes
  | _ => rfl

theorem kept_of_consults (consults : engine.consults operation = true) :
    (engine.perform operation).2.kept = some engine.settings := by
  rcases Bool.or_eq_true_iff.mp consults with asks | writes
  · exact engine.kept_of_asks asks
  · have nonempty : engine.written operation ≠ [] := by simpa using writes
    have ordinary := engine.isAdministrative_of_written nonempty
    exact (engine.wrote_perform ordinary).kept_of_nonempty nonempty

theorem environment_perform (operation : Operation) :
    (engine.perform operation).2.environment = operation.environmentAfter engine.environment := by
  cases operation with
  | assign | resetSettings | setClock | clearLog => rfl
  | _ => exact (engine.wrote_perform rfl).environment

theorem environment_run (operations : List Operation) :
    (engine.run operations).2.environment =
      operations.foldl Operation.environmentAfter engine.environment := by
  induction operations generalizing engine with
  | nil => rfl
  | cons operation later ih =>
    rw [List.foldl_cons, ← environment_perform]
    exact ih (engine.perform operation).2

theorem history_append (earlier later : List Operation) :
    engine.history (earlier ++ later) =
      engine.history earlier ++ (engine.run earlier).2.history later := by
  induction earlier generalizing engine with
  | nil => rfl
  | cons operation earlier ih => exact congrArg (List.cons _) (ih (engine.perform operation).2)

theorem map_operation_history (operations : List Operation) :
    (engine.history operations).map Moment.operation = operations := by
  induction operations generalizing engine with
  | nil => rfl
  | cons operation later ih => exact congrArg (List.cons operation) (ih _)

theorem parseRequest_none_fst (input : Value) :
    (engine.parseRequest input none).1 =
      (engine.parseRequest input (some engine.settings.mode)).1 :=
  congrArg (Except.map Verdict.data) (engine.validate_none_fst _ input _)

theorem perform_inMode_fst (operation : Operation) :
    (engine.perform operation).1 = (engine.perform (operation.inMode engine.settings.mode)).1 := by
  cases operation with
  | resolveUntyped input mode source id => cases mode with
    | none =>
      simp only [Operation.inMode, perform, answered, resolveUntyped_fst, parseRequest_none_fst]
    | some mode => rfl
  | validate schema input fallback mode => cases mode with
    | none => simp only [Operation.inMode, perform, answered, validate_none_fst]
    | some mode => rfl
  | parseRequest input mode => cases mode with
    | none => simp only [Operation.inMode, perform, answered, parseRequest_none_fst]
    | some mode => rfl
  | parseStyle input mode => cases mode with
    | none => simp only [Operation.inMode, perform, answered, parseStyle, validate_none_fst]
    | some mode => rfl
  | _ => rfl

theorem written_inMode (operation : Operation) :
    engine.written operation = engine.written (operation.inMode engine.settings.mode) := by
  cases operation with
  | resolveUntyped input mode source id => cases mode with
    | none => simp only [Operation.inMode, written, parseRequest_none_fst]; rfl
    | some mode => rfl
  | validate _ _ _ mode | parseRequest _ mode | parseStyle _ mode => cases mode <;> rfl
  | _ => rfl

theorem goesBy_settings (operation : Operation) : GoesBy engine.settings engine operation where
  answer := by
    rintro rfl
    rfl
  log := fun ordinary => (engine.wrote_perform ordinary).log
  result := engine.perform_inMode_fst operation
  written := engine.written_inMode operation

variable {engine}

/-- What is kept are the settings of the environment at the first consultation since the last reset. -/
theorem kept_run (unread : engine.kept = none) (operations : List Operation) :
    (engine.run operations).2.kept =
      (firstConsultation? (engine.history operations)).map fun moment =>
        .ofEnvironment moment.environment := by
  induction operations using List.reverseRecOn with
  | nil => exact unread
  | append_singleton earlier operation ih =>
    rw [run_append, history_append]
    show ((engine.run earlier).2.perform operation).2.kept = _
    generalize (engine.run earlier).2 = before at ih ⊢
    cases resets : operation.isReset with
    | true =>
      rw [history, history, firstConsultation?_concat_reset resets]
      cases operation with
      | resetSettings => rfl
      | _ => cases resets
    | false =>
      rw [history, history, firstConsultation?_concat resets]
      cases consults : before.consults operation with
      | false => rw [before.kept_of_silent resets consults, ih]; simp
      | true =>
        rw [before.kept_of_consults consults, Engine.settings, ih]
        cases firstConsultation? (engine.history earlier) <;> rfl

theorem settings_run_eq (unread : engine.kept = none) (operations : List Operation) :
    (engine.run operations).2.settings = .ofEnvironment (engine.consulted operations) := by
  rw [Engine.settings, kept_run unread, consulted]
  cases firstConsultation? (engine.history operations) <;> rfl

/-- At every point of a run all operations go by the settings of one environment, the one at the first
consultation since the last reset, or else at that point. What is assigned after such a consultation does not
count before the next reset, and reading the settings of some other environment has no effect at all. -/
theorem run_goesBy (unread : engine.kept = none) (operations : List Operation) :
    let after := (engine.run operations).2
    after.environment = operations.foldl Operation.environmentAfter engine.environment ∧
    (∀ operation, GoesBy (.ofEnvironment (engine.consulted operations)) after operation) ∧
    (∀ moment, firstConsultation? (engine.history operations) = some moment →
      ∀ later : List Operation, (∀ operation ∈ later, operation.isReset = false) →
        engine.consulted (operations ++ later) = moment.environment) ∧
    ∀ environment, after.perform (.readSettings (some environment)) =
      (.ok (.settings (.ofEnvironment environment)), after) := by
  intro after
  refine ⟨engine.environment_run operations, ?_, ?_, fun _ => rfl⟩
  · intro operation
    have goes := after.goesBy_settings operation
    rw [settings_run_eq unread operations] at goes
    exact goes
  · intro moment found later keeps
    have keepsLater : ∀ moment ∈ after.history later, moment.operation.isReset = false := by
      intro moment member
      have listed := List.mem_map_of_mem (f := Moment.operation) member
      rw [map_operation_history] at listed
      exact keeps _ listed
    rw [consulted, history_append, firstConsultation?_append found keepsLater]

/-- The level is assigned before the first entry is written, and the capacity before it and after it. -/
def belated : List Operation :=
  [.assign Settings.logCapacityVariable (some "2"),
    .parseRequest (Request.fallback.toValue) (some .strict),
    .assign Settings.thresholdVariable (some "debug"), .write .info "Test" "first" none,
    .assign Settings.logCapacityVariable (some "5")]

theorem run_goesBy_belated :
    initial.kept = none ∧
      ((initial.run belated).2.perform .settings).1 =
        .ok (.settings ⟨.atLeast .debug, .lenient, 2⟩) ∧
      ((initial.run (belated ++ [.resetSettings])).2.perform .settings).1 =
        .ok (.settings ⟨.atLeast .debug, .lenient, 5⟩) := by
  have unread : initial.kept = none := rfl
  obtain ⟨_, before, _, _⟩ := run_goesBy unread belated
  obtain ⟨_, after, _, _⟩ := run_goesBy unread (belated ++ [.resetSettings])
  have kept : Settings.ofEnvironment (initial.consulted belated) =
      ⟨.atLeast .debug, .lenient, 2⟩ := by decide +kernel
  have renewed : Settings.ofEnvironment (initial.consulted (belated ++ [.resetSettings])) =
      ⟨.atLeast .debug, .lenient, 5⟩ := by decide +kernel
  refine ⟨unread, ?_, ?_⟩
  · rw [(before .settings).answer rfl, kept]
  · rw [(after .settings).answer rfl, renewed]

end Engine

end Typeface
