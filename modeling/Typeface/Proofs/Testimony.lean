import Mathlib.Data.List.Forall2
import Mathlib.Data.List.ReduceOption
import Typeface.Proofs.Listing
import Typeface.Proofs.Retention
import Typeface.Proofs.Steadiness

/-! What the log tells of resolutions. The entries that a run of resolving operations leaves follow from the
operations and their results alone: each identity that a request has led to is described once, in the order
of the results, and where it was installed as a default, that is announced next. Failures leave nothing, and
neither do operations that only select or look up. -/

set_option autoImplicit false

namespace Typeface

namespace Operation

def isResolving : Operation → Bool
  | .resolve _ _ _ | .resolveFamilies _ _ _ _ | .installDefault _ _ | .resolveDefault _ _
  | .selectVariant _ _ _ | .matchVariant _ _ | .draw _ | .setClock _ => true
  | _ => false

/-- The identity that an operation resolved. One that is only looked up is not among them. -/
def resolved? : Operation → Except Fault Answer → Option Identity
  | .resolve _ _ _, .ok (.identity identity) | .resolveFamilies _ _ _ _, .ok (.identity identity)
  | .installDefault _ _, .ok (.identity identity) => some identity
  | _, _ => none

def allResolved (operations : List Operation) (results : List (Except Fault Answer)) : List Identity :=
  (operations.zipWith resolved? results).reduceOption

def trace (now : Number) : Operation → Except Fault Answer → List Entry
  | .resolve request _ _, .ok (.identity identity) =>
    [.resolution now request.kind.name identity]
  | .resolveFamilies _ weight italic _, .ok (.identity identity) =>
    [.resolution now (Engine.familiesKind weight italic) identity]
  | .installDefault families _, .ok (.identity identity) =>
    [.resolution now Request.Kind.fromFontTable.name identity, .installation now families identity]
  | _, _ => []

def traces (now : Number) : List Operation → List (Except Fault Answer) → List Entry
  | operation :: operations, result :: results =>
    operation.trace now result ++ traces (operation.timeAfter now) operations results
  | _, _ => []

theorem isSteady_of_isResolving {operation : Operation} (resolving : operation.isResolving = true) :
    operation.isSteady = true := by
  cases operation <;> first | rfl | cases resolving

end Operation

namespace Entry

def IsResolution (entry : Entry) : Prop :=
  entry.component = "StyleResolver" ∧ entry.action = "resolve"

instance : DecidablePred IsResolution := fun _ => inferInstanceAs (Decidable (_ ∧ _))

def told? (entry : Entry) (name : String) : Option Value := entry.metadata.bind (List.lookup name)

structure Describes (entry : Entry) (identity : Identity) : Prop where
  level : entry.level = .debug
  weight : entry.told? "weight" = some (.number identity.style.weight.toNumber)
  slant : entry.told? "slant" = some (.string identity.style.slant.name)
  baseWeight : entry.told? "baseWeight" = some (.number (.ofInt identity.baseWeight))
  styleClass : entry.told? "apiStyle" = some (.string identity.styleClass.name)

theorem resolution_describes (now : Number) (kind : String) (identity : Identity) :
    (resolution now kind identity).Describes identity := ⟨rfl, rfl, rfl, rfl, rfl⟩

end Entry

namespace Operation

theorem trace_describes (now : Number) (operation : Operation) (result : Except Fault Answer) :
    List.Forall₂ Entry.Describes ((operation.trace now result).filter (·.IsResolution))
      (operation.resolved? result).toList := by
  cases operation with
  | resolve | resolveFamilies | installDefault =>
    rcases result with fault | answer
    · exact .nil
    · cases answer with
      | identity identity => exact .cons (Entry.resolution_describes _ _ identity) .nil
      | _ => exact .nil
  | _ => exact .nil

theorem traces_describe (now : Number) (operations : List Operation)
    (results : List (Except Fault Answer)) :
    List.Forall₂ Entry.Describes ((traces now operations results).filter (·.IsResolution))
      (allResolved operations results) := by
  induction operations generalizing now results with
  | nil => exact .nil
  | cons operation operations ih =>
    cases results with
    | nil => exact .nil
    | cons result results =>
      have first := operation.trace_describes now result
      have rest := ih (operation.timeAfter now) results
      have split : allResolved (operation :: operations) (result :: results) =
          (operation.resolved? result).toList ++ allResolved operations results := by
        unfold allResolved
        rw [List.zipWith_cons_cons]
        cases operation.resolved? result with
        | none => exact List.reduceOption_cons_of_none _
        | some identity => exact List.reduceOption_cons_of_some _ _
      rw [traces, List.filter_append, split]
      exact List.rel_append first rest

end Operation

namespace Engine

variable {operation : Operation} {operations : List Operation}

theorem written_eq_trace (engine : Engine) (resolving : operation.isResolving = true) :
    engine.written operation = operation.trace engine.clock (engine.perform operation).1 := by
  cases operation with
  | resolve request source id =>
    simp only [written, perform, answered]
    cases (engine.resolve request source id).1 <;> rfl
  | resolveFamilies families weight italic id =>
    simp only [written, perform, answered]
    cases (engine.resolveFamilies families weight italic id).1 <;> rfl
  | installDefault families id =>
    simp only [written, perform, answered]
    cases (engine.installDefault families id).1 <;> rfl
  | resolveDefault | selectVariant | matchVariant | draw | setClock => rfl
  | _ => cases resolving

theorem logged_eq_traces (engine : Engine)
    (resolving : ∀ operation ∈ operations, operation.isResolving = true) :
    engine.logged operations =
      Operation.traces engine.clock operations (engine.run operations).1 := by
  induction operations generalizing engine with
  | nil => rfl
  | cons operation later ih =>
    obtain ⟨first, rest⟩ := List.forall_mem_cons.mp resolving
    have after := ih (engine.perform operation).2 rest
    rw [engine.clock_perform] at after
    rw [logged, engine.written_eq_trace first, after]
    rfl

/-- A run of resolving operations adds to the log the entries that are due for its results, as long as the log
has room for them; and among these the identities that were resolved are described one for one. -/
theorem run_testifies (engine : Engine)
    (resolving : ∀ operation ∈ operations, operation.isResolving = true) :
    let results := (engine.run operations).1
    let traces := Operation.traces engine.clock operations results
    (engine.log.entries.size + traces.length ≤ engine.settings.logCapacity →
      (engine.run operations).2.log.entries.toList = engine.log.entries.toList ++ traces) ∧
    List.Forall₂ Entry.Describes (traces.filter (·.IsResolution))
      (Operation.allResolved operations results) := by
  intro results traces
  refine ⟨?_, Operation.traces_describe engine.clock operations results⟩
  intro fits
  have steady : ∀ operation ∈ operations, operation.isSteady = true :=
    fun operation member => Operation.isSteady_of_isResolving (resolving operation member)
  have kept : .clearLog ∉ operations := by
    intro member
    cases resolving .clearLog member
  rw [engine.log_run steady kept, engine.logged_eq_traces resolving]
  exact Log.toList_writeAll_of_fits fits

def leafletFamilies : List Family := [⟨"Leaflet", [.plain 350 .upright, .plain 800 .italic]⟩]

/-- Two requests fail, one for want of a default and one for want of a family. -/
def leaflet : List Operation :=
  [.resolve (.relative .bold) .none 1, .installDefault leafletFamilies 0, .setClock (.ofInt 7),
    .resolveFamilies leafletFamilies .byFontTable (.given true) 0, .resolveDefault none 0,
    .resolve (.absolute .nan false) (.ofFamilies []) 0,
    .resolve (.relative .bold) (.ofBase (some (.ofStyle .regular leafletFamilies))) 0]

theorem run_testifies_leaflet :
    (∀ operation ∈ leaflet, operation.isResolving = true) ∧
      (initial.run leaflet).2.log.entries.toList.map
        (fun entry => (entry.timestamp, entry.level, entry.action)) =
        [(.ofInt 0, .debug, "resolve"), (.ofInt 0, .info, "initializeDefault"),
          (.ofInt 7, .debug, "resolve"), (.ofInt 7, .debug, "resolve")] ∧
      (Operation.allResolved leaflet (initial.run leaflet).1).length = 3 := by
  have resolving : ∀ operation ∈ leaflet, operation.isResolving = true := by decide
  obtain ⟨added, described⟩ := run_testifies initial resolving
  refine ⟨resolving, ?_, ?_⟩
  · rw [added (by decide +kernel)]
    decide +kernel
  · rw [← described.length_eq]
    decide +kernel

end Engine

end Typeface
