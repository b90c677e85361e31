import Typeface.Proofs.Report
import Typeface.Proofs.Writing

/-! How checks of untyped input end. Whether input is accepted is decided before the mode is asked, so the
two modes never differ in that: what one mode refuses with an error, the other replaces, for the same
defects and at least one. The engine has no part in the decision either. -/

set_option autoImplicit false

namespace Typeface.Engine

section

variable {α : Type} {decode : Decoder α} {input : Value} {data : α} {issues : List Issue}

theorem validate_of_ok (accepted : decode input = .ok data) (engine : Engine) (fallback : α)
    (mode : Mode) :
    engine.validate decode input fallback (some mode) = (.ok (.accepted data), engine) := by
  simp only [validate, accepted]

theorem validate_strict_of_error (rejected : decode input = .error issues) (engine : Engine)
    (fallback : α) :
    engine.validate decode input fallback (some .strict) = (.error (.rejected issues), engine) := by
  simp only [validate, rejected]

theorem validate_lenient_of_error (rejected : decode input = .error issues) (engine : Engine)
    (fallback : α) :
    engine.validate decode input fallback (some .lenient) =
      (.ok (.replaced fallback issues), engine.write .warn "Validation" "lenient fallback"
        (some [("errors", issueTexts (issues.map Issue.text))])) := by
  simp only [validate, rejected]

theorem validate_none_eq (engine : Engine) (decode : Decoder α) (input : Value) (fallback : α) :
    engine.validate decode input fallback none =
      Prod.map id keepSettings
        (engine.validate decode input fallback (some engine.settings.mode)) := by
  rw [validate_none]
  cases found : decode input with
  | ok data =>
    rw [validate_of_ok found, validate_of_ok found]
    rfl
  | error issues =>
    cases engine.settings.mode with
    | strict =>
      rw [validate_strict_of_error found, validate_strict_of_error found]
      rfl
    | lenient =>
      rw [validate_lenient_of_error found, validate_lenient_of_error found]
      rfl

theorem validate_none_fst (engine : Engine) (decode : Decoder α) (input : Value) (fallback : α) :
    (engine.validate decode input fallback none).1 =
      (engine.validate decode input fallback (some engine.settings.mode)).1 := by
  rw [validate_none_eq]
  rfl

end

/-- Two checks of the same input, one strict and one lenient and each on an engine of its own, either
both accept it as the same data and leave no trace, or both reject it for the same defects: the strict
one fails with a message that lists them, and changes nothing; the lenient one gives the fallback with
them, and its log is extended, as far as the capacity permits, by one warning that lists them. Without
a mode the one that is set decides. -/
theorem validate_strict_lenient (schema : Schema) (input fallback : Value) (severe mild : Engine) :
    ((∃ data, schema.decode input = .ok data ∧
        severe.validate schema.decode input fallback (some .strict) =
          (.ok (.accepted data), severe) ∧
        mild.validate schema.decode input fallback (some .lenient) =
          (.ok (.accepted data), mild)) ∨
      ∃ issues fault after, schema.decode input = .error issues ∧ issues ≠ [] ∧
        severe.validate schema.decode input fallback (some .strict) = (.error fault, severe) ∧
        fault.message = "[Validation] " ++ "; ".intercalate (issues.map Issue.text) ∧
        mild.validate schema.decode input fallback (some .lenient) =
          (.ok (.replaced fallback issues), after) ∧
        after = mild.write .warn "Validation" "lenient fallback"
          (some [("errors", issueTexts (issues.map Issue.text))]) ∧
        after.log.entries.toList =
          (mild.log.entries.toList ++ [Entry.mk mild.clock .warn "Validation" "lenient fallback"
            (some [("errors", issueTexts (issues.map Issue.text))])]).rtake
              mild.settings.logCapacity) ∧
    ∀ engine : Engine,
      engine.validate schema.decode input fallback none =
        Prod.map id keepSettings
          (engine.validate schema.decode input fallback (some engine.settings.mode)) := by
  refine ⟨?_, fun engine => engine.validate_none_eq schema.decode input fallback⟩
  cases found : schema.decode input with
  | ok data =>
    exact .inl ⟨data, rfl, validate_of_ok found severe fallback .strict,
      validate_of_ok found mild fallback .lenient⟩
  | error issues =>
    right
    have defective : issues ≠ [] := by
      rintro rfl
      exact schema.explains_decode input found
    have wrote := wrote_write (Eq.refl mild.clock) .warn "Validation" "lenient fallback"
      (some [("errors", issueTexts (issues.map Issue.text))])
    exact ⟨issues, .rejected issues, _, rfl, defective,
      validate_strict_of_error found severe fallback, rfl,
      validate_lenient_of_error found mild fallback, rfl, wrote.toList_log (List.cons_ne_nil _ _)⟩

end Typeface.Engine
