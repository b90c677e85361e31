import Typeface.Proofs.RoundTrip
import Typeface.Proofs.Writing

/-! Requests from untyped data in lenient mode. Whatever the data are, they are taken for a request: the one
that they spell, or else the one that returns to the normal style. Every request leads somewhere from a base
whose families all have variants, so nothing that comes in can make it fail; and the log tells whether the
data were rejected. -/

set_option autoImplicit false

namespace Typeface

def Request.taken (input : Value) : Request :=
  match decode input with
  | .ok request => request
  | .error _ => fallback

theorem Request.taken_of_ok {input : Value} {request : Request} (accepted : decode input = .ok request) :
    taken input = request := by
  rw [taken, accepted]

theorem Request.taken_of_error {input : Value} {issues : List Issue}
    (rejected : decode input = .error issues) : taken input = fallback := by
  rw [taken, rejected]

theorem Identity.resolve_eq_after {base default : Option Identity} {start : Identity}
    (given : base.or default = some start) (request : Request) :
    request.resolve (.ofBase base) default = start.after request := by
  have found : (Source.ofBase base).identity default = .ok start := by
    simp [Source.identity, Source.ofBase, given]
  cases request <;> simp only [Request.resolve, Source.drawnFrom, found] <;> rfl

namespace Engine

section

variable {engine : Engine} {mode : Option Mode}

theorem resolveUntyped_fst (engine : Engine) (input : Value) (mode : Option Mode) (source : Source)
    (id : RegistryId) :
    (engine.resolveUntyped input mode source id).1 =
      (engine.parseRequest input mode).1.bind fun request => (engine.resolve request source id).1 := by
  have undisturbed := engine.undisturbed_parseRequest input mode
  unfold resolveUntyped
  split
  next fault middle failed =>
    rw [failed]
    rfl
  next request middle parsed =>
    rw [parsed] at undisturbed ⊢
    rw [resolve_fst, undisturbed.registry id]
    exact (engine.resolve_fst request source id).symm

theorem parseRequest_fst_of_lenient (lenient : mode.getD engine.settings.mode = .lenient)
    (input : Value) : (engine.parseRequest input mode).1 = .ok (.taken input) := by
  have given (engine : Engine) :
      (engine.parseRequest input (some .lenient)).1 = .ok (.taken input) := by
    cases found : Request.decode input with
    | ok request =>
      rw [parseRequest, validate_of_ok found, Request.taken_of_ok found]
      rfl
    | error issues =>
      rw [parseRequest, validate_lenient_of_error found, Request.taken_of_error found]
      rfl
  cases mode with
  | some mode =>
    obtain rfl : mode = .lenient := lenient
    exact given engine
  | none =>
    have set : engine.settings.mode = .lenient := lenient
    rw [parseRequest, validate_none, set]
    exact given engine.keepSettings

theorem warning_of_ok {α : Type} {decode : Decoder α} {input : Value} {data : α}
    (accepted : decode input = .ok data) (engine : Engine) (mode : Option Mode) :
    engine.warning decode input mode = [] := by
  rw [warning, accepted]

theorem warning_of_error {α : Type} {decode : Decoder α} {input : Value} {issues : List Issue}
    (rejected : decode input = .error issues) (lenient : mode.getD engine.settings.mode = .lenient) :
    engine.warning decode input mode = [.rejection engine.clock issues] := by
  rw [warning, rejected, lenient]

theorem wrote_resolveUntyped_of_lenient (lenient : mode.getD engine.settings.mode = .lenient)
    {input : Value} {source : Source} {id : RegistryId} {identity : Identity}
    (resolved : (engine.resolve (.taken input) source id).1 = .ok identity) :
    Wrote (engine.warning Request.decode input mode ++
      [.resolution engine.clock (Request.taken input).kind.name identity]) engine
      (engine.resolveUntyped input mode source id).2 := by
  have wrote := engine.wrote_resolveUntyped input mode source id
  simp only [written, parseRequest_fst_of_lenient lenient, resolved] at wrote
  exact wrote

end

/-- In lenient mode any untyped data lead to an identity, from a base or a default whose families all have
variants, and over the same families. Data that are accepted lead to what the request that they spell leads
to, and the log is extended, as far as the capacity permits, by the one entry of every resolution. Data that
are rejected lead to what a relative request for the normal style leads to, at the same base weight, and the log
is extended by a warning and then by that entry. -/
theorem resolveUntyped_lenient {engine : Engine} {mode : Option Mode}
    (lenient : mode.getD engine.settings.mode = .lenient) {base : Option Identity} {id : RegistryId}
    {start : Identity} (given : base.or (engine.registry id).content = some start)
    (nonempty : start.families ≠ []) (stocked : Stocked start.families) (input : Value) :
    ∃ identity after,
      engine.resolveUntyped input mode (.ofBase base) id = (.ok identity, after) ∧
      identity.families = start.families ∧
      (1 ≤ identity.style.weight.value ∧ identity.style.weight.value ≤ 1000) ∧
      Undisturbed engine after ∧
      (∀ request, Request.decode input = .ok request →
        (engine.resolve request (.ofBase base) id).1 = .ok identity ∧
        Wrote [.resolution engine.clock request.kind.name identity] engine after ∧
        after.log.entries.toList =
          (engine.log.entries.toList ++
            [Entry.resolution engine.clock request.kind.name identity]).rtake
              engine.settings.logCapacity) ∧
      ∀ issues, Request.decode input = .error issues →
        (engine.resolve (.relative .normal) (.ofBase base) id).1 = .ok identity ∧
        identity.baseWeight = start.baseWeight ∧
        Wrote [.rejection engine.clock issues,
          .resolution engine.clock Request.Kind.relative.name identity] engine after ∧
        after.log.entries.toList =
          (engine.log.entries.toList ++ [Entry.rejection engine.clock issues,
            Entry.resolution engine.clock Request.Kind.relative.name identity]).rtake
              engine.settings.logCapacity := by
  obtain ⟨identity, reached, families⟩ := Identity.exists_after nonempty stocked (.taken input)
  have resolved : (engine.resolve (.taken input) (.ofBase base) id).1 = .ok identity := by
    rw [resolve_fst, Identity.resolve_eq_after given, reached]
  have success : (engine.resolveUntyped input mode (.ofBase base) id).1 = .ok identity := by
    rw [resolveUntyped_fst, parseRequest_fst_of_lenient lenient]
    exact resolved
  have wrote := wrote_resolveUntyped_of_lenient lenient resolved
  refine ⟨identity, _, Prod.ext success rfl, families,
    ⟨identity.style.weight.one_le, identity.style.weight.le_thousand⟩,
    engine.undisturbed_resolveUntyped input mode (.ofBase base) id, ?_, ?_⟩
  · intro request accepted
    rw [Request.taken_of_ok accepted] at resolved wrote
    rw [warning_of_ok accepted] at wrote
    exact ⟨resolved, wrote, wrote.toList_log (List.cons_ne_nil _ _)⟩
  · intro issues rejected
    rw [Request.taken_of_error rejected] at reached resolved wrote
    rw [warning_of_error rejected lenient] at wrote
    cases reached
    exact ⟨resolved, rfl, wrote, wrote.toList_log (List.cons_ne_nil _ _)⟩

def heavyDefault : Identity :=
  .ofStyle ⟨.ofInt 850, .italic⟩ [⟨"Sans", [.plain 400 .upright]⟩]

def heavyEngine : Engine := (initial.run [.openRegistry sharedRegistry (some heavyDefault)]).2

/-- A weight that is not a number is rejected, and the default is kept at its base weight. -/
theorem resolveUntyped_lenient_heavy :
    (none : Option Mode).getD heavyEngine.settings.mode = .lenient ∧
      Option.or none (heavyEngine.registry sharedRegistry).content = some heavyDefault ∧
      heavyDefault.families ≠ [] ∧ Stocked heavyDefault.families ∧
      ∃ identity after,
        heavyEngine.resolveUntyped (Request.absolute .nan true).toValue none (.ofBase none)
          sharedRegistry = (.ok identity, after) ∧
        identity.families = heavyDefault.families ∧ identity.baseWeight = 850 ∧
        Wrote [.rejection heavyEngine.clock [Request.unweighed],
          .resolution heavyEngine.clock Request.Kind.relative.name identity] heavyEngine after ∧
        after.log.entries.toList = [.rejection heavyEngine.clock [Request.unweighed],
          .resolution heavyEngine.clock Request.Kind.relative.name identity] := by
  have lenient : (none : Option Mode).getD heavyEngine.settings.mode = .lenient := rfl
  have given : Option.or none (heavyEngine.registry sharedRegistry).content = some heavyDefault := rfl
  have nonempty : heavyDefault.families ≠ [] := by decide
  have stocked : Stocked heavyDefault.families := by decide
  obtain ⟨identity, after, success, families, _, _, _, rejected⟩ :=
    resolveUntyped_lenient lenient given nonempty stocked (Request.absolute .nan true).toValue
  obtain ⟨_, weight, wrote, kept⟩ := rejected _ (Request.decode_toValue_of_nan rfl)
  have empty : heavyEngine.log.entries.toList = [] := rfl
  have capacity : heavyEngine.settings.logCapacity = 500 := rfl
  have fits : 2 ≤ 500 := by decide
  rw [empty, capacity, List.nil_append, rtake_of_length_le fits] at kept
  exact ⟨lenient, given, nonempty, stocked, identity, after, success, families, weight, wrote, kept⟩

end Engine

end Typeface
