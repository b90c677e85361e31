import Typeface.Proofs.Validation

/-! The grammar of requests as untyped data. An object spells a request if its kind is one of the four
and the members that count for this kind fit; nothing else in it matters, and the request has the
values of these members as they are. What spells no request is reported in full: not an object, no
such kind, or each member that does not fit. -/

set_option autoImplicit false

namespace Typeface

def Value.restrict (value : Value) (names : List String) : Value :=
  .object (names.map fun name => (name, value.member name))

namespace Request

inductive Field where
  | weight
  | italic
  | style
  deriving DecidableEq, Repr

namespace Field

def name : Field → String
  | .weight => "weight"
  | .italic => "italic"
  | .style => "style"

/-- Weights are any numbers, also infinite ones. -/
def fits : Field → Value → Bool
  | .weight, .number value => value ≠ .nan
  | .italic, .boolean _ => true
  | .style, .string value => StyleClass.all.any (·.name = value)
  | _, _ => false

theorem fits_weight_iff (value : Value) :
    weight.fits value = true ↔ ∃ result, Decoder.number value = .ok result := by
  cases value <;> simp [fits]

theorem fits_italic_iff (value : Value) :
    italic.fits value = true ↔ ∃ result, Decoder.boolean value = .ok result := by
  cases value <;> simp [fits]

theorem fits_style_iff (value : Value) :
    style.fits value = true ↔
      ∃ result, Decoder.oneOf StyleClass.all StyleClass.name value = .ok result := by
  cases value with
  | string value =>
    cases found : StyleClass.all.find? (·.name = value) with
    | some style =>
      have listed := List.find?_isSome.mp (Option.isSome_of_eq_some found)
      simpa [fits, Decoder.oneOf, found] using listed
    | none =>
      have unlisted := List.find?_eq_none.mp found
      simpa [fits, Decoder.oneOf, found] using unlisted
  | number value =>
    simp only [fits, Decoder.oneOf]
    split <;> simp [Decoder.mismatch]
  | _ => simp [fits, Decoder.oneOf, Decoder.mismatch]

end Field

def Kind.fields : Kind → List Field
  | .absolute => [.weight, .italic]
  | .relative => [.style]
  | .fromFontTable => []
  | .rebaseWeight => [.weight]

def Kind.memberNames (kind : Kind) : List String := "kind" :: kind.fields.map Field.name

def Kind.unfit (kind : Kind) (input : Value) : List Field :=
  kind.fields.filter fun field => !field.fits (input.member field.name)

theorem Kind.unfit_eq_nil_iff {kind : Kind} {input : Value} :
    kind.unfit input = [] ↔ ∀ field ∈ kind.fields, field.fits (input.member field.name) = true := by
  simp [unfit]

theorem Kind.ofValue?_eq_some_iff {value : Value} {kind : Kind} :
    ofValue? value = some kind ↔ value = .string kind.name := by
  constructor
  · intro found
    cases value with
    | string name => simpa [eq_comm] using List.find?_some found
    | _ => cases found
  · rintro rfl
    cases kind <;> decide

/-- The value is an object of a kind, and the members that count for this kind fit. -/
structure Spells (input : Value) (kind : Kind) : Prop where
  object : input.kind = .object
  named : input.member "kind" = .string kind.name
  fits : ∀ field ∈ kind.fields, field.fits (input.member field.name) = true

/-- The places at which a value fails to spell a request. The kind is looked at in objects only, and
other members only once it is known. -/
inductive Misspells (input : Value) : List (List String) → Prop where
  | shapeless (other : input.kind ≠ .object) : Misspells input [[]]
  | unknown (object : input.kind = .object)
      (unnamed : ∀ kind : Kind, input.member "kind" ≠ .string kind.name) :
      Misspells input [["kind"]]
  | unfit (kind : Kind) (object : input.kind = .object)
      (named : input.member "kind" = .string kind.name) :
      Misspells input ((kind.unfit input).map fun field => [field.name])

variable {input : Value} {kind : Kind} {request : Request}

def Kind.decode : Kind → Decoder Request
  | .absolute =>
    .map (fun (weight, italic) => .absolute weight italic)
      (.both (.member "weight" .number) (.member "italic" .boolean))
  | .relative => .map .relative (.member "style" (.oneOf StyleClass.all StyleClass.name))
  | .fromFontTable => fun _ => .ok .fromFontTable
  | .rebaseWeight => .map .rebaseWeight (.member "weight" .number)

theorem decode_of_kind (object : input.kind = .object)
    (named : input.member "kind" = .string kind.name) : decode input = kind.decode input := by
  rw [decode, Decoder.object_eq object, Kind.ofValue?_eq_some_iff.mpr named]
  cases kind <;> rfl

theorem decode_of_unknown (object : input.kind = .object)
    (unknown : ∀ kind : Kind, input.member "kind" ≠ .string kind.name) :
    decode input =
      .error [.below "kind" (.here (.undistinguished (Kind.all.map Kind.name)))] := by
  have unread : Kind.ofValue? (input.member "kind") = none := by
    rw [Option.eq_none_iff_forall_ne_some]
    intro kind read
    exact unknown kind (Kind.ofValue?_eq_some_iff.mp read)
  rw [decode, Decoder.object_eq object, unread]

theorem paths_of_kind (kind : Kind) (input : Value) :
    (kind.decode.report input).map Issue.path =
      (kind.unfit input).map fun field => [field.name] := by
  have weight := Decoder.pinpoints_number.paths_member
    (Field.fits_weight_iff (input.member "weight"))
  have italic := Decoder.pinpoints_boolean.paths_member
    (Field.fits_italic_iff (input.member "italic"))
  have style := (Decoder.pinpoints_oneOf StyleClass.all StyleClass.name).paths_member
    (Field.fits_style_iff (input.member "style"))
  cases kind with
  | absolute =>
    rw [Kind.decode, Decoder.report_map, Decoder.report_both, List.map_append, weight, italic]
    simp only [Kind.unfit, Kind.fields, List.filter_cons, Field.name]
    cases Field.weight.fits (input.member "weight") <;>
      cases Field.italic.fits (input.member "italic") <;> rfl
  | relative =>
    rw [Kind.decode, Decoder.report_map, style]
    simp only [Kind.unfit, Kind.fields, List.filter_cons, Field.name]
    cases Field.style.fits (input.member "style") <;> rfl
  | fromFontTable => rfl
  | rebaseWeight =>
    rw [Kind.decode, Decoder.report_map, weight]
    simp only [Kind.unfit, Kind.fields, List.filter_cons, Field.name]
    cases Field.weight.fits (input.member "weight") <;> rfl

theorem toValue_of_kind (named : input.member "kind" = .string kind.name)
    (accepted : kind.decode input = .ok request) :
    request.toValue = input.restrict kind.memberNames := by
  cases kind with
  | absolute =>
    rw [Kind.decode, Decoder.map_ok_iff] at accepted
    obtain ⟨⟨weight, italic⟩, parts, rfl⟩ := accepted
    simp only [Decoder.both_ok_iff, Decoder.member_ok_iff, Decoder.number_ok_iff,
      Decoder.boolean_ok_iff] at parts
    obtain ⟨⟨weighs, _⟩, slants⟩ := parts
    simp [toValue, members, Value.restrict, Kind.memberNames, Kind.fields, Field.name, Request.kind,
      named, weighs, slants]
  | relative =>
    rw [Kind.decode, Decoder.map_ok_iff] at accepted
    obtain ⟨style, part, rfl⟩ := accepted
    have styled := Decoder.eq_string_of_oneOf (Decoder.member_ok_iff.mp part)
    simp [toValue, members, Value.restrict, Kind.memberNames, Kind.fields, Field.name, Request.kind,
      named, styled]
  | fromFontTable =>
    cases accepted
    simp [toValue, members, Value.restrict, Kind.memberNames, Kind.fields, Request.kind, named]
  | rebaseWeight =>
    rw [Kind.decode, Decoder.map_ok_iff] at accepted
    obtain ⟨weight, part, rfl⟩ := accepted
    simp only [Decoder.member_ok_iff, Decoder.number_ok_iff] at part
    simp [toValue, members, Value.restrict, Kind.memberNames, Kind.fields, Field.name, Request.kind,
      named, part.1]

theorem paths_of_named (object : input.kind = .object)
    (named : input.member "kind" = .string kind.name) :
    (decode.report input).map Issue.path =
      (kind.unfit input).map fun field => [field.name] := by
  have same : decode.report input = kind.decode.report input := by
    unfold Decoder.report
    rw [decode_of_kind object named]
  rw [same, paths_of_kind]

theorem decode_of_spells (spells : Spells input kind) :
    ∃ request, decode input = .ok request ∧
      request.toValue = input.restrict kind.memberNames := by
  -- Where nothing is reported, nothing was rejected.
  have nowhere : (decode.report input).map Issue.path = [] := by
    rw [paths_of_named spells.object spells.named, Kind.unfit_eq_nil_iff.mpr spells.fits]
    rfl
  obtain ⟨request, accepted⟩ :=
    explains_decode.report_eq_nil_iff.mp (List.map_eq_nil_iff.mp nowhere)
  refine ⟨request, accepted, ?_⟩
  rw [decode_of_kind spells.object spells.named] at accepted
  exact toValue_of_kind spells.named accepted

theorem exists_spells_of_decode (accepted : decode input = .ok request) :
    ∃ kind, Spells input kind := by
  have object : input.kind = .object := (Decoder.object_ok_iff.mp accepted).1
  by_cases known : ∃ kind : Kind, input.member "kind" = .string kind.name
  · obtain ⟨kind, named⟩ := known
    have nowhere := paths_of_named object named
    rw [Decoder.report_of_ok accepted] at nowhere
    have fitting := Kind.unfit_eq_nil_iff.mp (List.map_eq_nil_iff.mp nowhere.symm)
    exact ⟨kind, object, named, fitting⟩
  · rw [decode_of_unknown object (not_exists.mp known)] at accepted
    cases accepted

theorem misspells_of_decode {issues : List Issue} (rejected : decode input = .error issues) :
    Misspells input (issues.map Issue.path) := by
  by_cases object : input.kind = .object
  · by_cases known : ∃ kind : Kind, input.member "kind" = .string kind.name
    · obtain ⟨kind, named⟩ := known
      rw [← Decoder.report_of_error rejected, paths_of_named object named]
      exact .unfit kind object named
    · have unknown := not_exists.mp known
      rw [decode_of_unknown object unknown] at rejected
      cases rejected
      exact .unknown object unknown
  · have reported := Decoder.report_of_error rejected
    rw [decode, Decoder.report_object, if_neg object] at reported
    cases reported
    exact .shapeless object

end Request

namespace Engine

/-- Strict parsing of any input either succeeds, and then the input spells a request and this request
is given, with the values that the members of its kind have in the input; or it fails, and then the
input spells no request, and there is one defect at each place at which it fails to. -/
theorem parseRequest_strict (engine : Engine) (input : Value) :
    (∃ kind request, Request.Spells input kind ∧
        engine.parseRequest input (some .strict) = (.ok request, engine) ∧
        request.toValue = input.restrict kind.memberNames) ∨
      (∀ kind, ¬ Request.Spells input kind) ∧ ∃ issues,
        engine.parseRequest input (some .strict) = (.error (.rejected issues), engine) ∧
        Request.Misspells input (issues.map Issue.path) := by
  cases found : Request.decode input with
  | ok request =>
    obtain ⟨kind, spells⟩ := Request.exists_spells_of_decode found
    obtain ⟨_, accepted, restricted⟩ := Request.decode_of_spells spells
    cases found.symm.trans accepted
    refine .inl ⟨kind, request, spells, ?_, restricted⟩
    rw [parseRequest, validate_of_ok found]
    rfl
  | error issues =>
    refine .inr ⟨?_, issues, ?_, Request.misspells_of_decode found⟩
    · intro kind spells
      obtain ⟨_, accepted, _⟩ := Request.decode_of_spells spells
      cases found.symm.trans accepted
    · rw [parseRequest, validate_strict_of_error found]
      rfl

/-- All that does not fit is reported, a member that is missing like one of another kind. -/
example :
    (Request.decode.report (.object
      [("weight", .number .nan), ("size", .null), ("kind", .string "absolute")])).map Issue.text =
        ["weight: Expected number, received nan", "italic: Required"] := rfl

end Engine

end Typeface
