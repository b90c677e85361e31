import Typeface.Proofs.Listing
import Typeface.Proofs.Movement
import Typeface.Proofs.Writing

/-! Requests that no default has a part in. A request that comes with a base never looks at a registry, nor
does one that selects anew from families of its own; and the families alone decide what a list of families
leads to. So any two registries may be asked, each of an engine of its own: the result is the same, the log is
told the same, and no registry notices. -/

set_option autoImplicit false

namespace Typeface

section

variable {source : Source} (default other : Option Identity)

theorem Source.identity_congr (based : source.base ≠ Option.none) :
    source.identity default = source.identity other := by
  obtain ⟨base, found⟩ := Option.ne_none_iff_exists'.mp based
  simp only [identity, found, Option.some_or]

theorem Source.drawnFrom_congr (given : source.base ≠ Option.none ∨ source.families ≠ Option.none) :
    source.drawnFrom default = source.drawnFrom other := by
  unfold drawnFrom
  cases own : source.families with
  | some families => rfl
  | none =>
    have based : source.base ≠ Option.none := given.resolve_right fun some => some own
    rw [identity_congr default other based]

/-- All that the request starts from comes with it: a base, or the families that it selects from. -/
def Request.SelfContained (request : Request) (source : Source) : Prop :=
  source.base ≠ none ∨
    source.families ≠ none ∧ (request.kind = .absolute ∨ request.kind = .fromFontTable)

theorem Request.resolve_congr {request : Request} (contained : request.SelfContained source) :
    request.resolve source default = request.resolve source other := by
  have given : source.base ≠ none ∨ source.families ≠ none := contained.imp_right And.left
  cases request with
  | absolute | fromFontTable =>
    unfold resolve
    rw [Source.drawnFrom_congr default other given]
  | relative | rebaseWeight =>
    -- Families of their own would be of no use to them, so they must have a base.
    have based : source.base ≠ none := contained.resolve_right (by simp [kind])
    unfold resolve
    rw [Source.identity_congr default other based]

end

namespace Engine

/-- Two operations, each on an engine of its own, come to the same: they give the same result and hand the
same entries to the log, and neither does anything to a registry. -/
structure Concur (left right : Engine) (first second : Except Fault Identity × Engine) : Prop where
  result : first.1 = second.1
  written : ∃ entries, Wrote entries left first.2 ∧ Wrote entries right second.2
  left_undisturbed : Undisturbed left first.2
  right_undisturbed : Undisturbed right second.2

variable {left right : Engine}

theorem concur_resolve (time : left.clock = right.clock) {request : Request} {source : Source}
    (contained : request.SelfContained source) (id other : RegistryId) :
    Concur left right (left.resolve request source id) (right.resolve request source other) := by
  have same : (left.resolve request source id).1 = (right.resolve request source other).1 := by
    rw [resolve_fst, resolve_fst]
    exact Request.resolve_congr _ _ contained
  have here := wrote_resolve time request source id
  rw [same] at here
  exact ⟨same, ⟨_, here, wrote_resolve rfl request source other⟩, left.undisturbed_resolve _ _ _,
    right.undisturbed_resolve _ _ _⟩

theorem concur_resolveFamilies (time : left.clock = right.clock) (families : List Family)
    (weight : Wanted Number) (italic : Wanted Bool) (id other : RegistryId) :
    Concur left right (left.resolveFamilies families weight italic id)
      (right.resolveFamilies families weight italic other) := by
  have same : (left.resolveFamilies families weight italic id).1 =
      (right.resolveFamilies families weight italic other).1 := by
    rw [resolveFamilies_fst, resolveFamilies_fst]
  have here := left.wrote_resolveFamilies families weight italic id
  rw [same, time] at here
  exact ⟨same, ⟨_, here, right.wrote_resolveFamilies families weight italic other⟩,
    left.undisturbed_resolveFamilies _ _ _ _, right.undisturbed_resolveFamilies _ _ _ _⟩

theorem undisturbed_run (engine : Engine) {operations : List Operation}
    (still : ∀ operation ∈ operations, operation.moved? = none) :
    Undisturbed engine (engine.run operations).2 := by
  induction operations generalizing engine with
  | nil => exact .refl engine
  | cons operation later ih =>
    obtain ⟨first, rest⟩ := List.forall_mem_cons.mp still
    exact (engine.undisturbed_perform first).trans (ih (engine.perform operation).2 rest)

/-- A request that comes with all that it starts from, and any request for an identity over a list of
families, goes the same way whichever registry is asked, on whichever engine at the same time; so neither the
result nor the log tells what the registries hold. And no registry is changed in a run unless an operation of
the run opens, swaps, subscribes to, or installs a default in one. -/
theorem concur_of_selfContained (time : left.clock = right.clock) (id other : RegistryId) :
    (∀ (request : Request) source, request.SelfContained source →
      Concur left right (left.resolve request source id) (right.resolve request source other)) ∧
    (∀ families weight italic,
      Concur left right (left.resolveFamilies families weight italic id)
        (right.resolveFamilies families weight italic other)) ∧
    ∀ operations : List Operation, (∀ operation ∈ operations, operation.moved? = none) →
      Undisturbed left (left.run operations).2 := by
  refine ⟨?_, ?_, ?_⟩
  · exact fun request source contained => concur_resolve time contained id other
  · exact fun families weight italic => concur_resolveFamilies time families weight italic id other
  · exact fun operations still => left.undisturbed_run still

def slantedDefault : Identity := .ofStyle ⟨.bold, .italic⟩ [⟨"Mono", [.plain 700 .italic]⟩]

def watchedEngine : Engine :=
  (initial.run [.openRegistry 1 (some slantedDefault), .subscribe 1 true (some none)]).2

/-- One request comes with a base, without which the default would lead it elsewhere, and one with families
that are of no use. -/
theorem concur_of_selfContained_watched :
    initial.clock = watchedEngine.clock ∧
      Request.SelfContained (.relative .bold) (.ofBase (some (.ofBaseWeight (.ofInt 300) []))) ∧
      Request.SelfContained (.absolute .nan true) (.ofFamilies []) ∧
      (watchedEngine.resolve (.relative .bold) (.ofBase (some (.ofBaseWeight (.ofInt 300) []))) 1).1 =
        .ok ((Identity.ofBaseWeight (.ofInt 300) []).relative .bold) ∧
      (watchedEngine.resolve (.absolute .nan true) (.ofFamilies []) 1).1 = .error .noFamilies ∧
      (watchedEngine.resolve (.relative .bold) .none 1).1 = .ok (slantedDefault.relative .bold) ∧
      Undisturbed watchedEngine (watchedEngine.resolve (.absolute .nan true) (.ofFamilies []) 1).2 := by
  have time : initial.clock = watchedEngine.clock := rfl
  have based : Request.SelfContained (.relative .bold)
      (.ofBase (some (.ofBaseWeight (.ofInt 300) []))) := .inl (Option.some_ne_none _)
  have supplied : Request.SelfContained (.absolute .nan true) (.ofFamilies []) :=
    .inr ⟨Option.some_ne_none [], .inl rfl⟩
  obtain ⟨requests, _, _⟩ := concur_of_selfContained time sharedRegistry 1
  have alike := requests _ _ supplied
  exact ⟨time, based, supplied, (requests _ _ based).result.symm, alike.result.symm, rfl,
    alike.right_undisturbed⟩

end Engine

end Typeface
