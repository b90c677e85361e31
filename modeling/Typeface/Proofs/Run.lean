import Typeface.Proofs.Delivery
import Typeface.Proofs.Undisturbed
import Typeface.Proofs.WellFormed

/-! Runs of an engine that are given no identities but those that it gave before. Each operation keeps
all identities well formed that are stored or announced, and gives only well-formed ones where it was
given such. So in a run that starts with empty registries there are no others, whatever the operations
and their order. -/

set_option autoImplicit false

namespace Typeface

/-- The identities that an operation can store or start from. What is drawn is not among them. -/
def Operation.identities : Operation → List Identity
  | .openRegistry _ content => content.toList
  | .setContent _ next => next.toList
  | .subscribe _ _ reaction => reaction.join.toList
  | .resolve _ source _ | .resolveUntyped _ _ source _ => source.base.toList
  | .resolveDefault base _ => base.toList
  | _ => []

def Operation.families : Operation → List (List Family)
  | .resolve _ source _ | .resolveUntyped _ _ source _ => source.families.toList
  | .resolveFamilies families _ _ _ | .installDefault families _ => [families]
  | _ => []

def Answer.identities : Answer → List Identity
  | .identity found => [found]
  | .content stored => stored.toList
  | _ => []

def identitiesOf : Except Fault Answer → List Identity
  | .ok answer => answer.identities
  | .error _ => []

namespace Engine

/-- Every identity that an operation can store or start from is known, or an operation before it gave
it. -/
def Grounded (engine : Engine) (known : List Identity) : List Operation → Prop
  | [] => True
  | operation :: later =>
    (∀ identity ∈ operation.identities, identity ∈ known) ∧
      (engine.perform operation).2.Grounded (known ++ identitiesOf (engine.perform operation).1) later

/-- Results give the identity, or a registry holds it, or it was announced. -/
def Shows (results : List (Except Fault Answer)) (engine : Engine) (identity : Identity) : Prop :=
  (∃ result ∈ results, identity ∈ identitiesOf result) ∨
    (∃ id, identity ∈ (engine.registry id).content) ∨
    ∃ entry ∈ engine.occurrences, identity ∈ entry.2.values

structure Upholds (property : Identity → Prop) (engine : Engine) : Prop where
  registries : ∀ id, (engine.registry id).Upholds property
  occurrences : ∀ entry ∈ engine.occurrences, ∀ identity ∈ entry.2.values, property identity

section

variable {property : Identity → Prop} {engine : Engine}

theorem Undisturbed.upholds {after : Engine} (undisturbed : Undisturbed engine after)
    (upholds : engine.Upholds property) : after.Upholds property where
  registries := by
    intro id
    rw [undisturbed.registry]
    exact upholds.registries id
  occurrences := by
    rw [undisturbed.occurrences]
    exact upholds.occurrences

theorem upholds_putRegistry (upholds : engine.Upholds property) (id : RegistryId)
    {registry : Registry Identity} (kept : registry.Upholds property) :
    (engine.putRegistry id registry).Upholds property where
  registries := by
    intro other
    simp only [putRegistry, Engine.registry]
    split
    · exact kept
    · exact upholds.registries other
  occurrences := upholds.occurrences

theorem upholds_setContent (upholds : engine.Upholds property) (id : RegistryId)
    {next : Option Identity} (given : ∀ identity ∈ next, property identity) :
    (engine.setContent id next).Upholds property := by
  obtain ⟨kept, shown⟩ := Registry.upholds_set (upholds.registries id) given
  refine ⟨(upholds_putRegistry upholds id kept).registries, ?_⟩
  intro entry member
  rw [setContent, Array.mem_def, Array.toList_appendList, List.mem_append, ← Array.mem_def] at member
  rcases member with member | member
  · exact upholds.occurrences entry member
  · obtain ⟨occurrence, occurred, rfl⟩ := List.mem_map.mp member
    exact shown occurrence occurred

end

variable {supplied : List (List Family)} {engine : Engine}

theorem wellFormed_of_identity (upholds : engine.Upholds (·.WellFormed supplied)) {source : Source}
    (given : ∀ base ∈ source.base, base.WellFormed supplied) {id : RegistryId} {identity : Identity}
    (found : source.identity (engine.registry id).content = .ok identity) :
    identity.WellFormed supplied := by
  unfold Source.identity at found
  split at found
  next other some =>
    obtain rfl := Except.ok.inj found
    rcases Option.or_eq_some_iff.mp some with base | ⟨_, content⟩
    · exact given other base
    · exact (upholds.registries id).content other content
  next => cases found

theorem wellFormed_of_resolve (upholds : engine.Upholds (·.WellFormed supplied)) {request : Request}
    {source : Source} (bases : ∀ base ∈ source.base, base.WellFormed supplied)
    (lists : ∀ families ∈ source.families, families ∈ supplied) {id : RegistryId}
    {identity : Identity} (success : (engine.resolve request source id).1 = .ok identity) :
    identity.WellFormed supplied := by
  rw [resolve_fst] at success
  exact request.wellFormed_of_resolve lists (fun _ => wellFormed_of_identity upholds bases) success

theorem wellFormed_of_resolveFamilies {families : List Family} (member : families ∈ supplied)
    {weight : Wanted Number} {italic : Wanted Bool} {id : RegistryId} {identity : Identity}
    (success : (engine.resolveFamilies families weight italic id).1 = .ok identity) :
    identity.WellFormed supplied := by
  rw [resolveFamilies_fst] at success
  exact Identity.wellFormed_of_selectVariant member success

theorem wellFormed_of_resolveUntyped (upholds : engine.Upholds (·.WellFormed supplied))
    {input : Value} {mode : Option Mode} {source : Source}
    (bases : ∀ base ∈ source.base, base.WellFormed supplied)
    (lists : ∀ families ∈ source.families, families ∈ supplied) {id : RegistryId}
    {identity : Identity}
    (success : (engine.resolveUntyped input mode source id).1 = .ok identity) :
    identity.WellFormed supplied := by
  have parsed := engine.undisturbed_parseRequest input mode
  unfold resolveUntyped at success
  split at success
  next => cases success
  next request after accepted =>
    rw [accepted] at parsed
    exact wellFormed_of_resolve (parsed.upholds upholds) bases lists success

theorem wellFormed_of_installDefault (upholds : engine.Upholds (·.WellFormed supplied))
    {families : List Family} (member : families ∈ supplied) (id : RegistryId) :
    (engine.installDefault families id).2.Upholds (·.WellFormed supplied) ∧
      ∀ identity, (engine.installDefault families id).1 = .ok identity →
        identity.WellFormed supplied := by
  have undisturbed := engine.undisturbed_resolve .fromFontTable (.ofFamilies families) id
  unfold installDefault
  split
  next fault after failed =>
    rw [failed] at undisturbed
    exact ⟨undisturbed.upholds upholds, by simp⟩
  next identity after found =>
    rw [found] at undisturbed
    have wellFormed : identity.WellFormed supplied :=
      wellFormed_of_resolve upholds (by simp [Source.ofFamilies])
        (by simpa [Source.ofFamilies] using member) (congrArg Prod.fst found)
    refine ⟨?_, ?_⟩
    · exact (undisturbed_write _ _ _ _ _).upholds
        (upholds_setContent (undisturbed.upholds upholds) id (by simpa using wellFormed))
    · intro other same
      obtain rfl := Except.ok.inj same
      exact wellFormed

theorem mem_identitiesOf_answered {result : Except Fault Identity × Engine} {identity : Identity} :
    identity ∈ identitiesOf (answered .identity result).1 ↔ result.1 = .ok identity := by
  obtain ⟨found | found, after⟩ := result
  · simp [answered, identitiesOf, Except.map]
  · simp [answered, identitiesOf, Except.map, Answer.identities, eq_comm]

theorem identitiesOf_answered_eq_nil {α : Type} {answer : α → Answer}
    (silent : ∀ value, (answer value).identities = []) (result : Except Fault α × Engine) :
    identitiesOf (answered answer result).1 = [] := by
  obtain ⟨found | found, after⟩ := result
  · rfl
  · exact silent found

theorem upholds_perform (upholds : engine.Upholds (·.WellFormed supplied)) (operation : Operation)
    (given : ∀ identity ∈ operation.identities, identity.WellFormed supplied)
    (lists : ∀ families ∈ operation.families, families ∈ supplied) :
    (engine.perform operation).2.Upholds (·.WellFormed supplied) ∧
      ∀ identity ∈ identitiesOf (engine.perform operation).1, identity.WellFormed supplied := by
  -- Most operations leave the registries alone and answer with something else than identities.
  have silent {answer : Except Fault Answer} {after : Engine}
      (undisturbed : Undisturbed engine after) (unanswered : identitiesOf answer = []) :
      after.Upholds (·.WellFormed supplied) ∧
        ∀ identity ∈ identitiesOf answer, identity.WellFormed supplied :=
    ⟨undisturbed.upholds upholds, by simp [unanswered]⟩
  have nothing : ∀ identity ∈ ([] : List Identity), identity.WellFormed supplied := by simp
  have content (id : RegistryId) :
      ∀ identity ∈ identitiesOf (.ok (.content (engine.registry id).content)),
        identity.WellFormed supplied := by
    simpa [identitiesOf, Answer.identities] using (upholds.registries id).content
  cases operation with
  | assign | resetSettings | settings | readSettings | setClock | write | writeTimed | entries
  | clearLog => exact silent ⟨rfl, rfl⟩ rfl
  | openRegistry id next =>
    have given : ∀ identity ∈ next, identity.WellFormed supplied := by
      simpa [Operation.identities] using given
    exact ⟨upholds_putRegistry upholds id (Registry.upholds_ofContent given), nothing⟩
  | getContent id =>
    refine ⟨upholds, fun identity member => ?_⟩
    exact wellFormed_of_identity upholds (by simp [Source.ofBase]) (mem_identitiesOf_answered.mp member)
  | peekContent id => exact ⟨upholds, content id⟩
  | setContent id next =>
    have given : ∀ identity ∈ next, identity.WellFormed supplied := by
      simpa [Operation.identities] using given
    exact ⟨upholds_setContent upholds id given, content id⟩
  | subscribe id once reaction =>
    have given : ∀ next ∈ reaction, ∀ identity ∈ next, identity.WellFormed supplied := by
      rintro next rfl identity held
      exact given identity (by simpa [Operation.identities] using held)
    refine ⟨upholds_putRegistry upholds id ?_, nothing⟩
    exact Registry.upholds_subscribe (upholds.registries id) once given
  | unsubscribe id ticket =>
    refine ⟨upholds_putRegistry upholds id ?_, nothing⟩
    exact Registry.upholds_unsubscribe (upholds.registries id) ticket
  | selectVariant | matchVariant | draw =>
    exact silent (.refl engine) (identitiesOf_answered_eq_nil (fun _ => rfl) _)
  | resolve request source id =>
    have bases : ∀ base ∈ source.base, base.WellFormed supplied := by
      simpa [Operation.identities] using given
    have lists : ∀ families ∈ source.families, families ∈ supplied := by
      simpa [Operation.families] using lists
    refine ⟨(engine.undisturbed_resolve request source id).upholds upholds, fun identity member => ?_⟩
    exact wellFormed_of_resolve upholds bases lists (mem_identitiesOf_answered.mp member)
  | resolveFamilies families weight italic id =>
    have supplies : families ∈ supplied := lists families (List.mem_singleton_self families)
    refine ⟨(engine.undisturbed_resolveFamilies families weight italic id).upholds upholds,
      fun identity member => ?_⟩
    exact wellFormed_of_resolveFamilies supplies (mem_identitiesOf_answered.mp member)
  | resolveDefault base id =>
    have bases : ∀ other ∈ (Source.ofBase base).base, other.WellFormed supplied := by
      simpa [Source.ofBase, Operation.identities] using given
    refine ⟨upholds, fun identity member => ?_⟩
    exact wellFormed_of_identity upholds bases (mem_identitiesOf_answered.mp member)
  | resolveUntyped input mode source id =>
    have bases : ∀ base ∈ source.base, base.WellFormed supplied := by
      simpa [Operation.identities] using given
    have lists : ∀ families ∈ source.families, families ∈ supplied := by
      simpa [Operation.families] using lists
    refine ⟨(engine.undisturbed_resolveUntyped input mode source id).upholds upholds,
      fun identity member => ?_⟩
    exact wellFormed_of_resolveUntyped upholds bases lists (mem_identitiesOf_answered.mp member)
  | installDefault families id =>
    have supplies : families ∈ supplied := lists families (List.mem_singleton_self families)
    obtain ⟨kept, found⟩ := wellFormed_of_installDefault upholds supplies id
    exact ⟨kept, fun identity member => found identity (mem_identitiesOf_answered.mp member)⟩
  | validate schema input fallback mode =>
    exact silent (engine.undisturbed_validate _ _ _ _) (identitiesOf_answered_eq_nil (fun _ => rfl) _)
  | parseRequest input mode =>
    exact silent (engine.undisturbed_parseRequest _ _) (identitiesOf_answered_eq_nil (fun _ => rfl) _)
  | parseStyle input mode =>
    exact silent (engine.undisturbed_parseStyle _ _) (identitiesOf_answered_eq_nil (fun _ => rfl) _)
  | readVariant fileName font =>
    exact silent (engine.undisturbed_readVariant _ _) (identitiesOf_answered_eq_nil (fun _ => rfl) _)

theorem upholds_run (operations : List Operation) {known : List Identity}
    (upholds : engine.Upholds (·.WellFormed supplied))
    (handed : ∀ identity ∈ known, identity.WellFormed supplied)
    (grounded : engine.Grounded known operations)
    (lists : ∀ operation ∈ operations, ∀ families ∈ operation.families, families ∈ supplied) :
    (engine.run operations).2.Upholds (·.WellFormed supplied) ∧
      ∀ result ∈ (engine.run operations).1, ∀ identity ∈ identitiesOf result,
        identity.WellFormed supplied := by
  induction operations generalizing engine known with
  | nil => exact ⟨upholds, by simp [run]⟩
  | cons operation later ih =>
    obtain ⟨given, grounded⟩ := grounded
    obtain ⟨first, lists⟩ := List.forall_mem_cons.mp lists
    obtain ⟨kept, found⟩ := upholds_perform upholds operation
      (fun identity member => handed identity (given identity member)) first
    obtain ⟨kept, foundLater⟩ := ih kept (List.forall_mem_append.mpr ⟨handed, found⟩) grounded lists
    exact ⟨kept, List.forall_mem_cons.mpr ⟨found, foundLater⟩⟩

structure Fresh (engine : Engine) : Prop where
  registries : ∀ id, engine.registry id = .ofContent none
  occurrences : engine.occurrences = #[]

theorem Fresh.upholds (fresh : engine.Fresh) (property : Identity → Prop) :
    engine.Upholds property where
  registries := by
    intro id
    rw [fresh.registries]
    exact Registry.upholds_ofContent (by simp)
  occurrences := by simp [fresh.occurrences]

theorem run_wellFormed (fresh : engine.Fresh) {operations : List Operation}
    (grounded : engine.Grounded [] operations) {identity : Identity}
    (shown : Shows (engine.run operations).1 (engine.run operations).2 identity) :
    identity.WellFormed (operations.flatMap Operation.families) ∧
      ∃ selection, identity.draw = .ok selection := by
  have covered : ∀ operation ∈ operations, ∀ families ∈ operation.families,
      families ∈ operations.flatMap Operation.families :=
    fun operation member families supplies => List.mem_flatMap.mpr ⟨operation, member, supplies⟩
  obtain ⟨kept, found⟩ := upholds_run operations (fresh.upholds _) (by simp) grounded covered
  have wellFormed : identity.WellFormed (operations.flatMap Operation.families) := by
    rcases shown with ⟨result, member, gives⟩ | ⟨id, holds⟩ | ⟨entry, occurred, shows⟩
    · exact found result member identity gives
    · exact (kept.registries id).content identity holds
    · exact kept.occurrences entry occurred identity shows
  exact ⟨wellFormed, wellFormed.exists_draw⟩

def posterFamilies : List Family := [⟨"Poster", [.plain 850 .italic]⟩]

def posterIdentity : Identity := .ofStyle ⟨.ofInt 850, .italic⟩ posterFamilies

/-- A default is made bold and swapped for the result, and a listener puts it back. -/
def posterRun : List Operation :=
  [.resolveFamilies posterFamilies .byFontTable .byFontTable 0,
    .openRegistry 0 (some posterIdentity), .subscribe 0 true (some (some posterIdentity)),
    .resolve (.relative .bold) .none 0, .setContent 0 (some (posterIdentity.relative .bold)),
    .resolve (.rebaseWeight .nan) (.ofBase (some (posterIdentity.relative .bold))) 0]

theorem run_wellFormed_poster :
    initial.Fresh ∧ initial.Grounded [] posterRun ∧
      Shows (initial.run posterRun).1 (initial.run posterRun).2 (posterIdentity.relative .bold) ∧
      (posterIdentity.relative .bold).WellFormed (posterRun.flatMap Operation.families) ∧
      ∃ selection, (posterIdentity.relative .bold).draw = .ok selection := by
  have fresh : initial.Fresh := ⟨fun _ => rfl, rfl⟩
  have grounded : initial.Grounded [] posterRun := by
    simp only [Grounded, posterRun]
    decide +kernel
  have shown : Shows (initial.run posterRun).1 (initial.run posterRun).2
      (posterIdentity.relative .bold) := .inl (by decide +kernel)
  exact ⟨fresh, grounded, shown, run_wellFormed fresh grounded shown⟩

end Engine

end Typeface
