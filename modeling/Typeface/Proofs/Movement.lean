import Typeface.Proofs.Cascade
import Typeface.Proofs.Undisturbed

/-! How operations move the registries of an engine. An operation moves one registry at most, in one of
few ways, and nothing occurs but by that move. So what all of these ways keep, holds of every registry
in every run; that tickets tell the listeners apart is such a property. -/

set_option autoImplicit false

namespace Typeface

inductive Registry.Moves {α : Type} (registry : Registry α) :
    List (Occurrence α) → Registry α → Prop where
  | stays : registry.Moves [] registry
  | opens (content : Option α) : registry.Moves [] (.ofContent content)
  | sets (next : Option α) : registry.Moves (registry.set next).1 (registry.set next).2
  | subscribes (once : Bool) (reaction : Option (Option α)) :
    registry.Moves [] (registry.subscribe once reaction)
  | unsubscribes (ticket : Nat) : registry.Moves [] (registry.unsubscribe ticket)

theorem Registry.Ticketed.moves {α : Type} {registry after : Registry α}
    {occurred : List (Occurrence α)} (ticketed : registry.Ticketed)
    (moves : registry.Moves occurred after) : after.Ticketed := by
  cases moves with
  | stays => exact ticketed
  | opens content => exact ticketed_ofContent content
  | sets next => exact ticketed.set next
  | subscribes once reaction => exact ticketed.subscribe once reaction
  | unsubscribes ticket => exact ticketed.unsubscribe ticket

def Operation.moved? : Operation → Option RegistryId
  | .openRegistry id _ | .setContent id _ | .subscribe id _ _ | .unsubscribe id _
  | .installDefault _ id => some id
  | _ => none

namespace Engine

/-- The registry has moved, no other has, and nothing else has occurred. -/
structure Moved (id : RegistryId) (occurred : List (Occurrence Identity)) (before after : Engine) :
    Prop where
  moves : (before.registry id).Moves occurred (after.registry id)
  others : ∀ other, other ≠ id → after.registry other = before.registry other
  occurrences : after.occurrences = before.occurrences ++ occurred.map fun entry => (id, entry)

variable {before middle after : Engine}

theorem Undisturbed.moved (undisturbed : Undisturbed before after) (id : RegistryId) :
    Moved id [] before after where
  moves := by
    rw [undisturbed.registry]
    exact .stays
  others := fun other _ => undisturbed.registry other
  occurrences := by simp [undisturbed.occurrences]

theorem Moved.after_undisturbed {id : RegistryId} {occurred : List (Occurrence Identity)}
    (moved : Moved id occurred middle after) (undisturbed : Undisturbed before middle) :
    Moved id occurred before after where
  moves := undisturbed.registry id ▸ moved.moves
  others := fun other differ => (moved.others other differ).trans (undisturbed.registry other)
  occurrences := undisturbed.occurrences ▸ moved.occurrences

theorem Moved.before_undisturbed {id : RegistryId} {occurred : List (Occurrence Identity)}
    (moved : Moved id occurred before middle) (undisturbed : Undisturbed middle after) :
    Moved id occurred before after where
  moves := undisturbed.registry id ▸ moved.moves
  others := fun other differ => (undisturbed.registry other).trans (moved.others other differ)
  occurrences := undisturbed.occurrences.trans moved.occurrences

theorem moved_putRegistry (engine : Engine) (id : RegistryId) {registry : Registry Identity}
    (moves : (engine.registry id).Moves [] registry) :
    Moved id [] engine (engine.putRegistry id registry) where
  moves := by simpa [putRegistry, Engine.registry] using moves
  others := fun other differ => if_neg differ
  occurrences := by simp [putRegistry]

theorem moved_setContent (engine : Engine) (id : RegistryId) (next : Option Identity) :
    Moved id ((engine.registry id).set next).1 engine (engine.setContent id next) where
  moves := by
    rw [registry_setContent]
    exact .sets next
  others := fun other differ => if_neg differ
  occurrences := rfl

theorem undisturbed_perform (engine : Engine) {operation : Operation}
    (still : operation.moved? = none) : Undisturbed engine (engine.perform operation).2 := by
  cases operation with
  | assign | resetSettings | settings | readSettings | setClock | write | writeTimed | entries
  | clearLog | getContent | peekContent | selectVariant | matchVariant | draw | resolveDefault =>
    exact ⟨rfl, rfl⟩
  | openRegistry | setContent | subscribe | unsubscribe | installDefault => cases still
  | resolve request source id => exact engine.undisturbed_resolve request source id
  | resolveFamilies families weight italic id =>
    exact engine.undisturbed_resolveFamilies families weight italic id
  | resolveUntyped input mode source id => exact engine.undisturbed_resolveUntyped input mode source id
  | validate schema input fallback mode => exact engine.undisturbed_validate _ _ _ _
  | parseRequest input mode => exact engine.undisturbed_parseRequest input mode
  | parseStyle input mode => exact engine.undisturbed_parseStyle input mode
  | readVariant fileName font => exact engine.undisturbed_readVariant fileName font

theorem exists_moved_installDefault (engine : Engine) (families : List Family) (id : RegistryId) :
    ∃ occurred, Moved id occurred engine (engine.installDefault families id).2 := by
  have resolved := engine.undisturbed_resolve .fromFontTable (.ofFamilies families) id
  unfold installDefault
  split
  next fault after failed =>
    rw [failed] at resolved
    exact ⟨[], resolved.moved id⟩
  next identity middle found =>
    rw [found] at resolved
    exact ⟨_, ((middle.moved_setContent id (some identity)).after_undisturbed
      resolved).before_undisturbed (undisturbed_write _ _ _ _ _)⟩

theorem exists_moved_perform (engine : Engine) {operation : Operation} {id : RegistryId}
    (moves : operation.moved? = some id) :
    ∃ occurred, Moved id occurred engine (engine.perform operation).2 := by
  cases operation with
  | openRegistry id content =>
    cases moves
    exact ⟨[], engine.moved_putRegistry id (.opens content)⟩
  | setContent id next =>
    cases moves
    exact ⟨_, engine.moved_setContent id next⟩
  | subscribe id once reaction =>
    cases moves
    exact ⟨[], engine.moved_putRegistry id (.subscribes once reaction)⟩
  | unsubscribe id ticket =>
    cases moves
    exact ⟨[], engine.moved_putRegistry id (.unsubscribes ticket)⟩
  | installDefault families id =>
    cases moves
    exact engine.exists_moved_installDefault families id
  | _ => cases moves

theorem ticketed_perform {engine : Engine} (ticketed : ∀ id, (engine.registry id).Ticketed)
    (operation : Operation) (id : RegistryId) :
    ((engine.perform operation).2.registry id).Ticketed := by
  cases moves : operation.moved? with
  | none =>
    rw [(engine.undisturbed_perform moves).registry]
    exact ticketed id
  | some moving =>
    obtain ⟨occurred, moved⟩ := engine.exists_moved_perform moves
    by_cases same : id = moving
    · rw [same]
      exact (ticketed moving).moves moved.moves
    · rw [moved.others id same]
      exact ticketed id

theorem ticketed_run {engine : Engine} (ticketed : ∀ id, (engine.registry id).Ticketed)
    (operations : List Operation) (id : RegistryId) :
    ((engine.run operations).2.registry id).Ticketed := by
  induction operations generalizing engine with
  | nil => exact ticketed id
  | cons operation later ih => exact ih (ticketed_perform ticketed operation)

end Engine

end Typeface
