import Typeface.Proofs.Movement
import Typeface.Proofs.Trace

/-! What listeners are shown when a content is swapped. Of listeners that swap the content in turn each
does so once, so a cascade ends; a listener that stays hears of each of its swaps once and in the end of
what is stored. But it may be shown what one swap put in next to what another one replaced: that is so
for a listener that comes after one that swaps. -/

set_option autoImplicit false

namespace Typeface

variable {α : Type}

namespace Registry

variable {registry : Registry α} {listener : Listener α} {earlier later : List (Listener α)}

theorem swaps_set (ticketed : registry.Ticketed) (next : Option α) :
    swaps (registry.set next).1 = chain registry.content (next :: pending registry.listeners) := by
  rw [set_eq_cascade ticketed.distinct, swaps_swap, swaps_cascade]
  rfl

theorem content_set (ticketed : registry.Ticketed) (next : Option α) :
    (registry.set next).2.content = (pending registry.listeners).getLastD next := by
  rw [set_eq_cascade ticketed.distinct]

theorem events_set_of_stays (ticketed : registry.Ticketed)
    (split : registry.listeners = earlier ++ listener :: later) (stays : listener.afterCall.isSome)
    (next : Option α) :
    events listener.ticket (registry.set next).1 =
      shownOf (pending earlier).length (registry.set next).2.content (swaps (registry.set next).1) := by
  have distinct := ticketed.distinct
  rw [swaps_set ticketed, content_set ticketed, set_eq_cascade distinct, events_swap]
  rw [split] at distinct ⊢
  rw [events_cascade_of_stays distinct stays]
  simp [dueTo, chain]

theorem events_set_of_leaves (ticketed : registry.Ticketed)
    (split : registry.listeners = earlier ++ listener :: later) (leaves : listener.afterCall = none)
    (next : Option α) :
    events listener.ticket (registry.set next).1 =
      ((swaps (registry.set next).1).drop (pending earlier).length).take 1 := by
  have distinct := ticketed.distinct
  rw [swaps_set ticketed, set_eq_cascade distinct, events_swap]
  rw [split] at distinct ⊢
  rw [events_cascade_of_leaves distinct leaves]
  rfl

theorem exists_split_of_mem_set (ticketed : registry.Ticketed) {ticket : Nat} {next : Option α}
    (member : ticket ∈ tickets (registry.set next).2.listeners) :
    ∃ earlier listener later, registry.listeners = earlier ++ listener :: later ∧
      listener.ticket = ticket ∧ listener.afterCall.isSome := by
  rw [set_eq_cascade ticketed.distinct] at member
  obtain ⟨kept, keptMember, rfl⟩ := List.mem_map.mp member
  obtain ⟨listener, listenerMember, stays⟩ := List.mem_filterMap.mp keptMember
  obtain ⟨earlier, later, split⟩ := List.append_of_mem listenerMember
  exact ⟨earlier, listener, later, split, (Listener.ticket_of_afterCall stays).symm, by simp [stays]⟩

/-- A cascade has one swap for the one that starts it and one for each listener that had yet to swap. Each
listener that stays is called once about each swap, and was shown at last what the registry holds in
the end. -/
theorem set_settles (ticketed : registry.Ticketed) (next : Option α) :
    (swaps (registry.set next).1).length = 1 + (pending registry.listeners).length ∧
      ∀ ticket ∈ tickets (registry.set next).2.listeners,
        (events ticket (registry.set next).1).length = (swaps (registry.set next).1).length ∧
        ((events ticket (registry.set next).1).map Change.previous).Perm
          ((swaps (registry.set next).1).map Change.previous) ∧
        (events ticket (registry.set next).1).getLast?.map Change.next =
          some (registry.set next).2.content := by
  refine ⟨by rw [swaps_set ticketed, length_chain, List.length_cons, Nat.add_comm], ?_⟩
  intro ticket member
  obtain ⟨earlier, listener, later, split, rfl, stays⟩ := exists_split_of_mem_set ticketed member
  have about := map_previous_shownOf (pending earlier).length (registry.set next).2.content
    (swaps (registry.set next).1)
  have ends : (swaps (registry.set next).1).getLast?.map Change.next =
      some (registry.set next).2.content := by
    rw [swaps_set ticketed, content_set ticketed, getLast?_chain]
  rw [events_set_of_stays ticketed split stays]
  refine ⟨?_, about, getLast?_shownOf ends _⟩
  simpa using about.length_eq

def regularIdentity : Identity := .ofStyle .regular []

def lightIdentity : Identity := .ofStyle ⟨.ofInt 300, .upright⟩ []

def boldIdentity : Identity := .ofStyle ⟨.bold, .upright⟩ []

def regularSlot (listeners : List (Bool × Option (Option Identity))) : Registry Identity :=
  (Engine.initial.run (.openRegistry Engine.sharedRegistry (some regularIdentity) ::
    listeners.map fun (once, reaction) => .subscribe Engine.sharedRegistry once reaction)).2.registry
      Engine.sharedRegistry

theorem ticketed_regularSlot (listeners : List (Bool × Option (Option Identity))) :
    (regularSlot listeners).Ticketed := by
  have empty : ∀ id, (Engine.initial.registry id).Ticketed := fun _ => ticketed_ofContent none
  exact Engine.ticketed_run empty _ _

/-- One listener swaps at its first call and leaves, one listens, and one empties the slot. -/
def crowd : Registry Identity :=
  regularSlot [(true, some (some boldIdentity)), (false, none), (false, some none)]

theorem set_settles_crowd :
    crowd.Ticketed ∧ 1 ∈ tickets (crowd.set (some lightIdentity)).2.listeners ∧
      (swaps (crowd.set (some lightIdentity)).1).length = 3 ∧
      (events 1 (crowd.set (some lightIdentity)).1).length = 3 ∧
      (events 1 (crowd.set (some lightIdentity)).1).getLast?.map Change.next = some none := by
  have ticketed : crowd.Ticketed := ticketed_regularSlot _
  have final : (crowd.set (some lightIdentity)).2 =
      ⟨none, [⟨1, false, none, true⟩, ⟨2, false, some none, true⟩], 3⟩ := by
    rw [set_eq_cascade ticketed.distinct]
    rfl
  have stays : 1 ∈ tickets (crowd.set (some lightIdentity)).2.listeners := by
    rw [final]
    decide
  obtain ⟨count, each⟩ := set_settles ticketed (some lightIdentity)
  obtain ⟨once, _, current⟩ := each 1 stays
  exact ⟨ticketed, stays, count, once.trans count, by rw [current, final]⟩

/-- What a listener is shown in a cascade, and when each event is a swap of the cascade. -/
theorem events_set (ticketed : registry.Ticketed)
    (split : registry.listeners = earlier ++ listener :: later) (next : Option α) :
    events listener.ticket (registry.set next).1 =
        (if listener.afterCall.isSome then
          shownOf (pending earlier).length (registry.set next).2.content (swaps (registry.set next).1)
        else ((swaps (registry.set next).1).drop (pending earlier).length).take 1) ∧
      ((∀ event ∈ events listener.ticket (registry.set next).1, event ∈ swaps (registry.set next).1) ↔
        listener.afterCall = none ∨
          ∀ swap ∈ (swaps (registry.set next).1).take (pending earlier).length,
            ⟨(registry.set next).2.content, swap.previous⟩ ∈ swaps (registry.set next).1) := by
  cases stays : listener.afterCall with
  | none =>
    have shown := events_set_of_leaves ticketed split stays next
    refine ⟨shown, iff_of_true ?_ (.inl rfl)⟩
    intro event member
    rw [shown] at member
    exact List.mem_of_mem_drop (List.mem_of_mem_take member)
  | some kept =>
    have shown := events_set_of_stays ticketed split (by rw [stays]; rfl) next
    refine ⟨shown, ?_⟩
    rw [shown]
    constructor
    · intro own
      refine .inr fun swap member => own _ (List.mem_append_right _ ?_)
      exact List.mem_map.mpr ⟨swap, List.mem_reverse.mpr member, rfl⟩
    · rintro (leaves | late) event member
      · cases leaves
      · rcases List.mem_append.mp member with member | member
        · exact List.mem_of_mem_drop member
        · obtain ⟨swap, swapMember, rfl⟩ := List.mem_map.mp member
          exact late swap (List.mem_reverse.mp swapMember)

theorem events_set_crowd :
    crowd.Ticketed ∧
      crowd.listeners = crowd.listeners.take 1 ++ ⟨1, false, none, false⟩ :: crowd.listeners.drop 2 ∧
      events 1 (crowd.set (some lightIdentity)).1 =
        [⟨some boldIdentity, some lightIdentity⟩, ⟨none, some boldIdentity⟩,
          ⟨none, some regularIdentity⟩] := by
  have ticketed : crowd.Ticketed := ticketed_regularSlot _
  have split : crowd.listeners =
      crowd.listeners.take 1 ++ ⟨1, false, none, false⟩ :: crowd.listeners.drop 2 := rfl
  obtain ⟨shown, _⟩ := events_set ticketed split (some lightIdentity)
  refine ⟨ticketed, split, shown.trans ?_⟩
  rw [swaps_set ticketed, content_set ticketed]
  rfl

def duo : Registry Identity := regularSlot [(false, some (some boldIdentity)), (false, none)]

/-- No swap puts the bold identity in the place of the regular one, but the second listener is shown
that. -/
theorem event_not_mem_swaps :
    swaps (duo.set (some lightIdentity)).1 =
        [⟨some lightIdentity, some regularIdentity⟩, ⟨some boldIdentity, some lightIdentity⟩] ∧
      events 1 (duo.set (some lightIdentity)).1 =
        [⟨some boldIdentity, some lightIdentity⟩, ⟨some boldIdentity, some regularIdentity⟩] ∧
      ∃ event ∈ events 1 (duo.set (some lightIdentity)).1,
        event ∉ swaps (duo.set (some lightIdentity)).1 := by
  have ticketed : duo.Ticketed := ticketed_regularSlot _
  rw [set_eq_cascade ticketed.distinct]
  refine ⟨rfl, rfl, ⟨some boldIdentity, some regularIdentity⟩, ?_, ?_⟩ <;> decide +kernel

end Registry

end Typeface
