import Typeface.Proofs.RoundTrip

/-! Untyped data that have been read. A style has a grammar as a request has: an object whose members for the
weight and for the slant fit, with two ways to give the slant. What is read, or is taken in place of what
does not fit, can be written out and read once more without a change: a weight that was brought into range stays
where it is, and a slant that was given by a flag is given by name from then on. -/

set_option autoImplicit false

namespace Typeface

namespace Decoder

variable {α : Type} {decode : Decoder α} {value : Value} {result : Option α}

theorem optional_ok_iff (required : ∀ part, decode .absent ≠ .ok part) :
    optional decode value = .ok result ↔
      value = .absent ∧ result = none ∨ ∃ part, decode value = .ok part ∧ some part = result := by
  by_cases absent : value = .absent
  · rw [absent]
    simp [optional, required, eq_comm]
  · have present : optional decode value = (decode value).map some := by
      cases value <;> trivial
    simp [present, map_eq_ok_iff, absent]

end Decoder

theorem Slant.oneOf_ok_iff {value : Value} {slant : Slant} :
    Decoder.oneOf Slant.all Slant.name value = .ok slant ↔ value = .string slant.name := by
  constructor
  · exact Decoder.eq_string_of_oneOf
  · rintro rfl
    cases slant <;> rfl

namespace Style

/-- The value is an object whose weight and flag fit if it has them, and the style is the one that it gives. A
slant that is given by name counts before the flag. -/
structure Spells (input : Value) (style : Style) : Prop where
  object : input.kind = .object
  weight : input.member "weight" = .absent ∧ style.weight = .normal ∨
    ∃ number, number ≠ .nan ∧ input.member "weight" = .number number ∧
      style.weight = .ofNumber number
  flag : input.member "italic" = .absent ∨ ∃ leans, input.member "italic" = .boolean leans
  slant : input.member "slant" = .string style.slant.name ∨
    input.member "slant" = .absent ∧
      (style.slant = .italic ↔ input.member "italic" = .boolean true)

variable {input : Value} {style : Style}

theorem decode_ok_iff :
    decode input = .ok style ↔ input.kind = .object ∧ ∃ weight italic slant,
      Decoder.optional .number (input.member "weight") = .ok weight ∧
      Decoder.optional .boolean (input.member "italic") = .ok italic ∧
      Decoder.optional (.oneOf Slant.all Slant.name) (input.member "slant") = .ok slant ∧
      ofNumber (weight.getD Weight.normal.toNumber)
        (slant.getD (.ofItalic (italic.getD false))) = style := by
  simp only [decode, Decoder.object_ok_iff, Decoder.map_ok_iff, Decoder.both_ok_iff,
    Decoder.member_ok_iff, Prod.exists, and_assoc]

theorem Spells.of_decode (accepted : decode input = .ok style) : Spells input style := by
  obtain ⟨object, weight, italic, slant, weighs, leans, named, rfl⟩ := decode_ok_iff.mp accepted
  rw [Decoder.optional_ok_iff (by simp)] at weighs leans
  rw [Decoder.optional_ok_iff (by simp [Slant.oneOf_ok_iff])] at named
  constructor
  · exact object
  · obtain ⟨absent, rfl⟩ | ⟨number, found, rfl⟩ := weighs
    · exact .inl ⟨absent, Weight.ofNumber_toNumber .normal⟩
    · obtain ⟨written, weighable⟩ := Decoder.number_ok_iff.mp found
      exact .inr ⟨number, weighable, written, rfl⟩
  · obtain ⟨absent, _⟩ | ⟨flag, found, _⟩ := leans
    · exact .inl absent
    · exact .inr ⟨flag, Decoder.boolean_ok_iff.mp found⟩
  · obtain ⟨unnamed, rfl⟩ | ⟨slant, found, rfl⟩ := named
    · refine .inr ⟨unnamed, ?_⟩
      obtain ⟨absent, rfl⟩ | ⟨flag, found, rfl⟩ := leans
      · simp [absent, ofNumber, Slant.ofItalic]
      · rw [Decoder.boolean_ok_iff.mp found]
        cases flag <;> simp [ofNumber, Slant.ofItalic]
    · exact .inl (Slant.oneOf_ok_iff.mp found)

theorem Spells.decode_eq (spells : Spells input style) : decode input = .ok style := by
  obtain ⟨object, weight, flag, slant⟩ := spells
  have weighs : ∃ found, Decoder.optional .number (input.member "weight") = .ok found ∧
      Weight.ofNumber (found.getD Weight.normal.toNumber) = style.weight := by
    obtain ⟨absent, same⟩ | ⟨number, weighable, written, same⟩ := weight
    · refine ⟨none, by rw [absent]; rfl, ?_⟩
      rw [same]
      exact Weight.ofNumber_toNumber .normal
    · exact ⟨some number, by simp [Decoder.optional_ok_iff, written, weighable], same.symm⟩
  have leans : ∃ found, Decoder.optional .boolean (input.member "italic") = .ok found ∧
      (found.getD false = true ↔ input.member "italic" = .boolean true) := by
    obtain absent | ⟨leans, written⟩ := flag
    · exact ⟨none, by rw [absent]; rfl, by simp [absent]⟩
    · exact ⟨some leans, by simp [Decoder.optional_ok_iff, written], by simp [written]⟩
  obtain ⟨number, numberFound, weight⟩ := weighs
  obtain ⟨italic, italicFound, leans⟩ := leans
  have named : ∃ found, Decoder.optional (.oneOf Slant.all Slant.name) (input.member "slant") = .ok found ∧
      found.getD (.ofItalic (italic.getD false)) = style.slant := by
    obtain written | ⟨absent, same⟩ := slant
    · exact ⟨some style.slant, by simp [Decoder.optional_ok_iff, Slant.oneOf_ok_iff, written], rfl⟩
    · refine ⟨none, by rw [absent]; rfl, ?_⟩
      rw [← leans] at same
      cases turned : style.slant <;> simp_all [Slant.ofItalic]
  obtain ⟨slant, slantFound, turned⟩ := named
  refine decode_ok_iff.mpr ⟨object, number, italic, slant, numberFound, italicFound, slantFound, ?_⟩
  rw [ofNumber, weight, turned]

theorem spells_toValue (style : Style) : Spells style.toValue style where
  object := rfl
  weight := .inr ⟨style.weight.toNumber, by simp [Weight.toNumber, Number.ofNat, Number.ofInt], rfl,
    (Weight.ofNumber_toNumber style.weight).symm⟩
  flag := .inl rfl
  slant := .inl rfl

end Style

namespace Request

theorem weight?_ne_nan_of_decode {input : Value} {request : Request}
    (accepted : decode input = .ok request) : request.weight? ≠ some .nan := by
  obtain ⟨kind, spells⟩ := exists_spells_of_decode accepted
  rw [decode_of_kind spells.object spells.named] at accepted
  cases kind with
  | absolute =>
    obtain ⟨⟨weight, italic⟩, parts, rfl⟩ := Decoder.map_ok_iff.mp accepted
    have weighs := Decoder.member_ok_iff.mp (Decoder.both_ok_iff.mp parts).1
    simpa [weight?] using (Decoder.number_ok_iff.mp weighs).2
  | relative =>
    obtain ⟨style, _, rfl⟩ := Decoder.map_ok_iff.mp accepted
    simp [weight?]
  | fromFontTable =>
    cases accepted
    simp [weight?]
  | rebaseWeight =>
    obtain ⟨weight, part, rfl⟩ := Decoder.map_ok_iff.mp accepted
    simpa [weight?] using (Decoder.number_ok_iff.mp (Decoder.member_ok_iff.mp part)).2

theorem exists_restrict_of_decode {input : Value} {request : Request}
    (accepted : decode input = .ok request) :
    ∃ kind, Spells input kind ∧ request.toValue = input.restrict kind.memberNames := by
  obtain ⟨kind, spells⟩ := exists_spells_of_decode accepted
  obtain ⟨_, again, restricted⟩ := decode_of_spells spells
  cases accepted.symm.trans again
  exact ⟨kind, spells, restricted⟩

end Request

namespace Engine

section

variable {α : Type} {engine : Engine} {decode : Decoder α} {input : Value} {mode : Option Mode}

theorem exists_taken_of_validate (fallback : α)
    (admitted : mode.getD engine.settings.mode = .lenient ∨ ∃ data, decode input = .ok data) :
    ∃ data, (engine.validate decode input fallback mode).1.map Verdict.data = .ok data ∧
      (decode input = .ok data ∨ data = fallback ∧ ∀ other, decode input ≠ .ok other) := by
  have given (mode : Mode) (admitted : mode = .lenient ∨ ∃ data, decode input = .ok data) :
      ∃ data, (engine.validate decode input fallback (some mode)).1.map Verdict.data = .ok data ∧
        (decode input = .ok data ∨ data = fallback ∧ ∀ other, decode input ≠ .ok other) := by
    cases found : decode input with
    | ok data =>
      rw [validate_of_ok found]
      exact ⟨data, rfl, .inl rfl⟩
    | error issues =>
      obtain rfl : mode = .lenient := by simpa [found] using admitted
      rw [validate_lenient_of_error found]
      exact ⟨fallback, rfl, .inr ⟨rfl, by simp⟩⟩
  cases mode with
  | some mode => exact given mode admitted
  | none =>
    rw [validate_none_fst]
    exact given engine.settings.mode admitted

end

theorem parseRequest_toValue {request : Request} (weighable : request.weight? ≠ some .nan)
    (engine : Engine) : engine.parseRequest request.toValue (some .strict) = (.ok request, engine) := by
  rw [parseRequest, validate_of_ok (Request.decode_toValue weighable)]
  rfl

theorem parseStyle_toValue (style : Style) (engine : Engine) :
    engine.parseStyle style.toValue (some .strict) = (.ok style, engine) := by
  rw [parseStyle, validate_of_ok style.spells_toValue.decode_eq]
  rfl

/-- Input that fits, and any input in lenient mode, is read as a request and as a style that are read again from
what they are written out as, at any engine and without a trace. If the input fits, the request is written out
with the members of its kind as the input has them; and the slant of the style is the one that the input gives by
name, or else the one that the flag tells. The weight of a style is in range in any case. -/
theorem parse_canonical (engine : Engine) (input : Value) (mode : Option Mode) :
    (mode.getD engine.settings.mode = .lenient ∨ (∃ request, Request.decode input = .ok request) →
      ∃ request, (engine.parseRequest input mode).1 = .ok request ∧
        (∀ later : Engine,
          later.parseRequest request.toValue (some .strict) = (.ok request, later)) ∧
        ((∃ data, Request.decode input = .ok data) →
          ∃ kind, Request.Spells input kind ∧
            request.toValue = input.restrict kind.memberNames)) ∧
    (mode.getD engine.settings.mode = .lenient ∨ (∃ style, Style.decode input = .ok style) →
      ∃ style, (engine.parseStyle input mode).1 = .ok style ∧
        (∀ later : Engine, later.parseStyle style.toValue (some .strict) = (.ok style, later)) ∧
        (1 ≤ style.weight.value ∧ style.weight.value ≤ 1000) ∧
        ((∃ data, Style.decode input = .ok data) → Style.Spells input style)) := by
  constructor
  · intro admitted
    obtain ⟨request, parsed, taken⟩ := exists_taken_of_validate Request.fallback admitted
    refine ⟨request, parsed, parseRequest_toValue ?_, ?_⟩
    · obtain accepted | ⟨rfl, _⟩ := taken
      · exact Request.weight?_ne_nan_of_decode accepted
      · decide
    · rintro ⟨data, accepted⟩
      obtain same | ⟨_, rejected⟩ := taken
      · exact Request.exists_restrict_of_decode same
      · exact absurd accepted (rejected data)
  · intro admitted
    obtain ⟨style, parsed, taken⟩ := exists_taken_of_validate Style.regular admitted
    refine ⟨style, parsed, parseStyle_toValue style,
      ⟨style.weight.one_le, style.weight.le_thousand⟩, ?_⟩
    rintro ⟨data, accepted⟩
    obtain same | ⟨_, rejected⟩ := taken
    · exact .of_decode same
    · exact absurd accepted (rejected data)

def looseInput : Value :=
  .object [("kind", .string "bold"), ("weight", .number (.infinite false)), ("italic", .boolean true)]

theorem parse_canonical_loose :
    (none : Option Mode).getD initial.settings.mode = .lenient ∧
      (∃ style, Style.decode looseInput = .ok style) ∧
      (∃ request, (initial.parseRequest looseInput none).1 = .ok request ∧
        initial.parseRequest request.toValue (some .strict) = (.ok request, initial) ∧
        request = .fallback) ∧
      ∃ style, (initial.parseStyle looseInput (some .strict)).1 = .ok style ∧
        initial.parseStyle style.toValue (some .strict) = (.ok style, initial) ∧
        Style.Spells looseInput style ∧ style = ⟨.greatest, .italic⟩ := by
  have lenient : (none : Option Mode).getD initial.settings.mode = .lenient := rfl
  have accepted : ∃ style, Style.decode looseInput = .ok style := ⟨_, rfl⟩
  obtain ⟨request, parsed, again, _⟩ := (parse_canonical initial looseInput none).1 (.inl lenient)
  obtain ⟨style, styleParsed, styleAgain, _, spells⟩ :=
    (parse_canonical initial looseInput (some .strict)).2 (.inr accepted)
  refine ⟨lenient, accepted, ⟨request, parsed, again initial, ?_⟩,
    style, styleParsed, styleAgain initial, spells accepted, ?_⟩
  · cases parsed
    rfl
  · cases styleParsed
    rfl

end Engine

end Typeface
