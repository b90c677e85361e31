import Typeface.Schema

/-! What decoders report of a value that they reject. There is always something to report, so that no
report is lost by being empty; a decoder of single values has one defect to report, and that of the
value as a whole; and the decoders made from others report what these do, part by part and in order. -/

set_option autoImplicit false

namespace Typeface

namespace Decoder

variable {α β : Type} {first : Decoder α} {second : Decoder β} {decode : Decoder α}

/-- Nothing is rejected without a defect. -/
def Explains (decode : Decoder α) : Prop := ∀ value, decode value ≠ .error []

/-- All that is rejected has one defect, and has it as a whole. -/
def Pinpoints (decode : Decoder α) : Prop :=
  ∀ value issues, decode value = .error issues → ∃ defect, issues = [.here defect]

def report (decode : Decoder α) (value : Value) : List Issue :=
  match decode value with
  | .ok _ => []
  | .error issues => issues

theorem report_of_ok {value : Value} {result : α} (accepted : decode value = .ok result) :
    decode.report value = [] := by
  rw [report, accepted]

theorem report_of_error {value : Value} {issues : List Issue}
    (rejected : decode value = .error issues) : decode.report value = issues := by
  rw [report, rejected]

theorem Explains.report_eq_nil_iff (explains : decode.Explains) {value : Value} :
    decode.report value = [] ↔ ∃ result, decode value = .ok result := by
  cases found : decode value with
  | ok result => simp [report_of_ok found]
  | error issues =>
    rw [report_of_error found]
    constructor
    · rintro rfl
      exact absurd found (explains value)
    · rintro ⟨_, contra⟩
      cases contra

theorem Pinpoints.explains (pinpoints : decode.Pinpoints) : decode.Explains := by
  intro value rejected
  obtain ⟨defect, contra⟩ := pinpoints value [] rejected
  cases contra

/-! Decoders of single values. -/

theorem pinpoints_mismatch {expected : Expectation} {value : Value} {issues : List Issue}
    (rejected : (mismatch expected value : Except (List Issue) α) = .error issues) :
    ∃ defect, issues = [.here defect] :=
  ⟨.mismatch expected value.kind, (Except.error.inj rejected).symm⟩

theorem pinpoints_number : number.Pinpoints := by
  intro value issues rejected
  unfold number at rejected
  split at rejected
  · split at rejected
    · exact pinpoints_mismatch rejected
    · cases rejected
  · exact pinpoints_mismatch rejected

theorem pinpoints_boolean : boolean.Pinpoints := by
  intro value issues rejected
  unfold boolean at rejected
  split at rejected
  · cases rejected
  · exact pinpoints_mismatch rejected

theorem pinpoints_oneOf (options : List α) (name : α → String) : (oneOf options name).Pinpoints := by
  intro value issues rejected
  unfold oneOf at rejected
  split at rejected
  · split at rejected
    · cases rejected
    · exact ⟨_, (Except.error.inj rejected).symm⟩
  · split at rejected
    · exact pinpoints_mismatch rejected
    · exact ⟨_, (Except.error.inj rejected).symm⟩
  · exact pinpoints_mismatch rejected

theorem eq_string_of_oneOf {options : List α} {name : α → String} {value : Value} {option : α}
    (accepted : oneOf options name value = .ok option) : value = .string (name option) := by
  unfold oneOf at accepted
  split at accepted
  next text =>
    split at accepted
    next found =>
      cases accepted
      have named := List.find?_some found
      rw [of_decide_eq_true named]
    next => cases accepted
  next => split at accepted <;> cases accepted
  next => cases accepted

/-! Decoders made from others. -/

@[simp] theorem report_map (transform : α → β) (decode : Decoder α) (value : Value) :
    (map transform decode).report value = decode.report value := by
  unfold report map
  cases decode value <;> rfl

@[simp] theorem report_both (first : Decoder α) (second : Decoder β) (value : Value) :
    (both first second).report value = first.report value ++ second.report value := by
  unfold report both
  cases first value <;> cases second value <;> simp

@[simp] theorem report_member (name : String) (decode : Decoder α) (value : Value) :
    (member name decode).report value =
      (decode.report (value.member name)).map (Issue.below name) := by
  unfold report member
  cases decode (value.member name) <;> rfl

theorem Pinpoints.paths_member (pinpoints : decode.Pinpoints) {name : String} {value : Value}
    {fits : Bool} (accepts : fits = true ↔ ∃ result, decode (value.member name) = .ok result) :
    ((member name decode).report value).map Issue.path = if fits then [] else [[name]] := by
  rw [report_member]
  cases found : decode (value.member name) with
  | ok result =>
    rw [if_pos (accepts.mpr ⟨result, found⟩), report_of_ok found]
    rfl
  | error issues =>
    have unfit : ¬ fits = true := by
      rw [accepts]
      rintro ⟨result, contra⟩
      rw [found] at contra
      cases contra
    obtain ⟨defect, rfl⟩ := pinpoints _ _ found
    rw [if_neg unfit, report_of_error found]
    rfl

theorem object_eq {members : Decoder α} {value : Value} (object : value.kind = .object) :
    Decoder.object members value = members value := by
  cases value with
  | object entries => rfl
  | number value => cases value <;> cases object
  | _ => cases object

theorem report_object (members : Decoder α) (value : Value) :
    (object members).report value =
      if value.kind = .object then members.report value
      else [.here (.mismatch (.kind .object) value.kind)] := by
  cases value with
  | number value => cases value <;> rfl
  | _ => rfl

theorem Explains.map (explains : decode.Explains) (transform : α → β) :
    (Decoder.map transform decode).Explains := by
  intro value rejected
  unfold Decoder.map at rejected
  cases found : decode value with
  | ok result => simp [found, Except.map] at rejected
  | error issues =>
    simp only [found, Except.map, Except.error.injEq] at rejected
    exact explains value (found.trans (congrArg _ rejected))

theorem Explains.both (left : first.Explains) (right : second.Explains) :
    (Decoder.both first second).Explains := by
  intro value rejected
  have nothing := report_of_error rejected
  rw [report_both, List.append_eq_nil_iff, left.report_eq_nil_iff, right.report_eq_nil_iff]
    at nothing
  obtain ⟨⟨one, accepted⟩, ⟨other, also⟩⟩ := nothing
  simp [Decoder.both, accepted, also] at rejected

theorem Explains.member (explains : decode.Explains) (name : String) :
    (Decoder.member name decode).Explains := by
  intro value rejected
  have nothing := report_of_error rejected
  rw [report_member, List.map_eq_nil_iff, explains.report_eq_nil_iff] at nothing
  obtain ⟨result, accepted⟩ := nothing
  simp [Decoder.member, accepted] at rejected

theorem Explains.object (explains : decode.Explains) : (Decoder.object decode).Explains := by
  intro value rejected
  unfold Decoder.object at rejected
  split at rejected
  · exact explains _ rejected
  · cases rejected

theorem Explains.optional (explains : decode.Explains) : (Decoder.optional decode).Explains := by
  intro value rejected
  unfold Decoder.optional at rejected
  split at rejected
  · cases rejected
  · exact explains.map some value rejected

end Decoder

theorem SelectionField.explains_decode : SelectionField.decode.Explains := by
  intro value rejected
  unfold SelectionField.decode at rejected
  split at rejected
  next field =>
    split at rejected
    · cases rejected
    · split at rejected
      · cases rejected
      next defective =>
        exact defective (List.map_eq_nil_iff.mp (Except.error.inj rejected))
  next =>
    split at rejected <;> cases rejected

theorem StyleTable.explains_decode : StyleTable.decode.Explains :=
  have weightClass := Decoder.pinpoints_number.explains.optional.member "usWeightClass"
  have selection := SelectionField.explains_decode.optional.member "fsSelection"
  ((weightClass.both selection).map _).object

theorem Style.explains_decode : Style.decode.Explains :=
  have weight := Decoder.pinpoints_number.explains.optional.member "weight"
  have italic := Decoder.pinpoints_boolean.explains.optional.member "italic"
  have slant := (Decoder.pinpoints_oneOf Slant.all Slant.name).explains.optional.member "slant"
  ((weight.both (italic.both slant)).map _).object

theorem Request.explains_decode : Request.decode.Explains := by
  have weight := Decoder.pinpoints_number.explains.member "weight"
  have italic := Decoder.pinpoints_boolean.explains.member "italic"
  have style := (Decoder.pinpoints_oneOf StyleClass.all StyleClass.name).explains.member "style"
  apply Decoder.Explains.object
  intro value rejected
  dsimp only at rejected
  split at rejected
  · exact (weight.both italic).map _ value rejected
  · exact style.map _ value rejected
  · cases rejected
  · exact weight.map _ value rejected
  · cases rejected

theorem Schema.explains_decode (schema : Schema) : schema.decode.Explains := by
  cases schema with
  | request => exact Request.explains_decode.map _
  | style => exact Style.explains_decode.map _
  | styleTable => exact StyleTable.explains_decode.map _

end Typeface
