import Typeface.Proofs.Derivation
import Typeface.Proofs.Grammar

/-! Requests that are written out as untyped data and read back. Each comes back as it was, with one
exception: a weight that is not a number is taken by typed requests, which bring it to the least
weight, and refused in untyped ones. Infinite weights are numbers on both ways. -/

set_option autoImplicit false

namespace Typeface

namespace Request

def weight? : Request → Option Number
  | .absolute weight _ => some weight
  | .relative _ => none
  | .fromFontTable => none
  | .rebaseWeight weight => some weight

def unweighed : Issue := ⟨["weight"], .mismatch (.kind .number) .nan⟩

theorem decode_toValue_of_nan {request : Request} (unweighable : request.weight? = some .nan) :
    decode request.toValue = .error [unweighed] := by
  cases request with
  | absolute weight italic =>
    cases unweighable
    rfl
  | relative style => cases unweighable
  | fromFontTable => cases unweighable
  | rebaseWeight weight =>
    cases unweighable
    rfl

theorem decode_toValue {request : Request} (weighable : request.weight? ≠ some .nan) :
    decode request.toValue = .ok request := by
  have same : decode request.toValue = request.kind.decode request.toValue :=
    decode_of_kind rfl rfl
  rw [same]
  cases request with
  | absolute weight italic =>
    have number : weight ≠ .nan := fun nan => weighable (congrArg some nan)
    refine Decoder.map_ok_iff.mpr ⟨(weight, italic), Decoder.both_ok_iff.mpr ⟨?_, rfl⟩, rfl⟩
    exact Decoder.member_ok_iff.mpr (Decoder.number_ok_iff.mpr ⟨rfl, number⟩)
  | relative style => cases style <;> rfl
  | fromFontTable => rfl
  | rebaseWeight weight =>
    have number : weight ≠ .nan := fun nan => weighable (congrArg some nan)
    refine Decoder.map_ok_iff.mpr ⟨weight, ?_, rfl⟩
    exact Decoder.member_ok_iff.mpr (Decoder.number_ok_iff.mpr ⟨rfl, number⟩)

end Request

theorem Identity.weight_of_after {base identity : Identity} {request : Request}
    (nonempty : base.families ≠ []) (stocked : Stocked base.families)
    (reached : base.after request = .ok identity) {weight : Number}
    (weighs : request.weight? = some weight) : identity.style.weight = .ofNumber weight := by
  cases request with
  | absolute wanted italic =>
    rw [after_absolute nonempty stocked] at reached
    cases weighs
    cases reached
    rfl
  | relative style => cases weighs
  | fromFontTable => cases weighs
  | rebaseWeight wanted =>
    cases weighs
    cases reached
    rfl

namespace Engine

theorem resolveUntyped_of_ok {request : Request} {input : Value}
    (accepted : Request.decode input = .ok request) (engine : Engine) (mode : Mode) (source : Source)
    (id : RegistryId) :
    engine.resolveUntyped input (some mode) source id = engine.resolve request source id := by
  simp only [resolveUntyped, parseRequest, validate_of_ok accepted]
  rfl

theorem resolveUntyped_strict_of_error {issues : List Issue} {input : Value}
    (rejected : Request.decode input = .error issues) (engine : Engine) (source : Source)
    (id : RegistryId) :
    engine.resolveUntyped input (some .strict) source id = (.error (.rejected issues), engine) := by
  simp only [resolveUntyped, parseRequest, validate_strict_of_error rejected]
  rfl

/-- Over a base whose families all have variants a request leads to an identity, with its weight
brought into range if it has one; and the request written out leads to the same, with the same entry
in the log, unless its weight is not a number: then it is refused and the engine left alone. To ask
for what the font tables declare is to ask it of the families of the base. -/
theorem resolveUntyped_toValue (engine : Engine) (id : RegistryId) {base : Identity}
    (nonempty : base.families ≠ []) (stocked : Stocked base.families) (request : Request) :
    ∃ identity after,
      engine.resolve request (.ofBase (some base)) id = (.ok identity, after) ∧
      (∀ weight, request.weight? = some weight → identity.style.weight = .ofNumber weight) ∧
      engine.resolveUntyped request.toValue (some .strict) (.ofBase (some base)) id =
        (if request.weight? = some .nan then (.error (.rejected [Request.unweighed]), engine)
        else (.ok identity, after)) ∧
      (request = .fromFontTable →
        engine.resolveFamilies base.families .byFontTable .byFontTable id =
          (.ok identity, after)) := by
  obtain ⟨identity, reached, _⟩ := Identity.exists_after nonempty stocked request
  have resolved : engine.resolve request (.ofBase (some base)) id =
      (.ok identity, engine.writeIdentity request.kind.name identity) := by
    rw [resolve, Identity.resolve_ofBase, reached]
    rfl
  refine ⟨identity, _, resolved, ?_, ?_, ?_⟩
  · intro weight weighs
    exact Identity.weight_of_after nonempty stocked reached weighs
  · by_cases unweighable : request.weight? = some .nan
    · rw [if_pos unweighable]
      exact resolveUntyped_strict_of_error (Request.decode_toValue_of_nan unweighable) _ _ _
    · rw [if_neg unweighable, ← resolved]
      exact resolveUntyped_of_ok (Request.decode_toValue unweighable) _ _ _ _
  · rintro rfl
    rw [← resolved]
    rfl

def regularBase : Identity := .ofStyle .regular [⟨"Sans", [.plain 400 .upright]⟩]

theorem resolveUntyped_toValue_infinite :
    regularBase.families ≠ [] ∧ Stocked regularBase.families ∧
      ∃ identity after,
        initial.resolve (.absolute (.infinite false) true) (.ofBase (some regularBase)) 0 =
          (.ok identity, after) ∧
        initial.resolveUntyped (Request.absolute (.infinite false) true).toValue (some .strict)
          (.ofBase (some regularBase)) 0 = (.ok identity, after) ∧
        identity.style.weight = .greatest := by
  have nonempty : regularBase.families ≠ [] := by decide
  have stocked : Stocked regularBase.families := by decide
  obtain ⟨identity, after, typed, weighs, untyped, _⟩ :=
    initial.resolveUntyped_toValue 0 nonempty stocked (.absolute (.infinite false) true)
  rw [if_neg (by decide)] at untyped
  exact ⟨nonempty, stocked, identity, after, typed, untyped, weighs _ rfl⟩

/-- The same request is refused when it is untyped, and leads to the least weight when it is typed. -/
theorem resolveUntyped_nan_ne_resolve :
    regularBase.families ≠ [] ∧ Stocked regularBase.families ∧
      (initial.resolveUntyped (Request.absolute .nan false).toValue (some .strict)
        (.ofBase (some regularBase)) 0).1 = .error (.rejected [Request.unweighed]) ∧
      (initial.resolve (.absolute .nan false) (.ofBase (some regularBase)) 0).1 =
        .ok (.ofStyle ⟨.least, .upright⟩ regularBase.families) :=
  ⟨by decide, by decide, rfl, rfl⟩

end Engine

end Typeface
