import Mathlib.Data.List.ReduceOption
import Typeface.Proofs.Attendance
import Typeface.Proofs.Audience

/-! The listeners of a registry replay its history. In a run of an engine, the calls to one registry and
their answers say all that occurs there, as long as no listener swaps the content: a listener hears of
every swap from its subscription until it leaves, and what a swap returns is what the one before it put
in. So swaps that are undone in the backward order of their making leave the content as it was. -/

set_option autoImplicit false

namespace Typeface

/-- Changes that are undone: each swap starts a part that is nested in turn, and that ends by swapping back
in what it had replaced. -/
inductive Nested {α : Type} : List (Change α) → Prop where
  | nil : Nested []
  | swap {next previous replaced : Option α} {inner later : List (Change α)}
    (within : Nested inner) (after : Nested later) :
    Nested (⟨next, previous⟩ :: (inner ++ ⟨previous, replaced⟩ :: later))

theorem getLastD_of_nested {α : Type} {changes : List (Change α)} (nested : Nested changes)
    {content : Option α} (linked : changes = chain content (changes.map Change.next)) :
    (changes.map Change.next).getLastD content = content := by
  induction nested generalizing content with
  | nil => rfl
  | @swap next previous replaced inner later within after _ ih =>
    rw [List.map_cons, List.map_append, List.map_cons, chain, chain_append, chain] at linked
    obtain ⟨first, others⟩ := List.cons.inj linked
    obtain rfl : previous = content := congrArg Change.previous first
    -- The part within is as long as the chain of its own swaps, so what follows is a chain again.
    obtain ⟨_, restored⟩ := List.append_inj others (by rw [length_chain, List.length_map])
    have ends := ih (List.cons.inj restored).2
    rw [List.map_cons, List.map_append, List.map_cons, List.getLastD_cons]
    simpa [List.getLast?_cons] using ends

def Operation.exchange? (id : RegistryId) : Operation → Except Fault Answer → Option (Exchange Identity)
  | .setContent other next, .ok (.content previous) =>
    if other = id then some (.swap ⟨next, previous⟩) else none
  | .subscribe other once _, .ok (.ticket ticket) =>
    if other = id then some (.subscribe ticket once) else none
  | .unsubscribe other ticket, _ => if other = id then some (.unsubscribe ticket) else none
  | _, _ => none

def Operation.put? (id : RegistryId) : Operation → Option (Option Identity)
  | .setContent other next => if other = id then some next else none
  | _ => none

/-- An operation that does nothing to a registry but swap, subscribe or unsubscribe, and subscribes no
listener to it that swaps. -/
def Operation.Plain (id : RegistryId) : Operation → Prop
  | .openRegistry other _ | .installDefault _ other => other ≠ id
  | .subscribe other _ reaction => other = id → reaction = none
  | _ => True

namespace Engine

def exchanges (engine : Engine) (id : RegistryId) (operations : List Operation) :
    List (Exchange Identity) :=
  (operations.zipWith (·.exchange? id) (engine.run operations).1).reduceOption

def occurredAt (engine : Engine) (id : RegistryId) : List (Occurrence Identity) :=
  engine.occurrences.toList.filterMap fun entry => if entry.1 = id then some entry.2 else none

variable {engine before middle after : Engine} {id : RegistryId}
  {exchanges rest : List (Exchange Identity)} {occurred later : List (Occurrence Identity)}

theorem exchanges_cons (engine : Engine) (id : RegistryId) (operation : Operation)
    (later : List Operation) :
    engine.exchanges id (operation :: later) =
      (operation.exchange? id (engine.perform operation).1).toList ++
        (engine.perform operation).2.exchanges id later := by
  have start : engine.exchanges id (operation :: later) =
      (operation.exchange? id (engine.perform operation).1 ::
        later.zipWith (·.exchange? id) ((engine.perform operation).2.run later).1).reduceOption := rfl
  cases found : operation.exchange? id (engine.perform operation).1 with
  | none => rw [start, found, List.reduceOption_cons_of_none]; rfl
  | some exchange => rw [start, found, List.reduceOption_cons_of_some]; rfl

theorem run_append (engine : Engine) (earlier later : List Operation) :
    (engine.run (earlier ++ later)).2 = ((engine.run earlier).2.run later).2 := by
  induction earlier generalizing engine with
  | nil => rfl
  | cons operation earlier ih => exact ih (engine.perform operation).2

theorem Moved.occurredAt {other : RegistryId} (moved : Moved other occurred before after)
    (id : RegistryId) :
    after.occurredAt id = before.occurredAt id ++ if other = id then occurred else [] := by
  have own : (occurred.map fun entry => (other, entry)).filterMap
      (fun entry => if entry.1 = id then some entry.2 else none) =
        if other = id then occurred else [] := by
    split <;> simp [List.filterMap_map, *]
  rw [Engine.occurredAt, moved.occurrences, Array.toList_appendList, List.filterMap_append, own]
  rfl

/-- Calls to a registry were all that happened to it. -/
structure Dealt (id : RegistryId) (exchanges : List (Exchange Identity))
    (occurred : List (Occurrence Identity)) (before after : Engine) : Prop where
  deals : (before.registry id).DealsAll exchanges occurred (after.registry id)
  occurredAt : after.occurredAt id = before.occurredAt id ++ occurred

theorem Dealt.trans (first : Dealt id exchanges occurred before middle)
    (second : Dealt id rest later middle after) :
    Dealt id (exchanges ++ rest) (occurred ++ later) before after where
  deals := first.deals.trans second.deals
  occurredAt := by rw [second.occurredAt, first.occurredAt, List.append_assoc]

theorem exchange?_of_moved?_ne {operation : Operation} (elsewhere : operation.moved? ≠ some id)
    (result : Except Fault Answer) : operation.exchange? id result = none := by
  cases operation with
  | setContent other next =>
    have differ : other ≠ id := fun same => elsewhere (congrArg some same)
    unfold Operation.exchange?
    split <;> simp_all
  | subscribe other once reaction =>
    have differ : other ≠ id := fun same => elsewhere (congrArg some same)
    unfold Operation.exchange?
    split <;> simp_all
  | unsubscribe other ticket => exact if_neg fun same => elsewhere (congrArg some same)
  | _ => rfl

theorem Dealt.of_untouched (kept : after.registry id = before.registry id)
    (nothing : after.occurredAt id = before.occurredAt id) : Dealt id [] [] before after where
  deals := kept ▸ .nil _
  occurredAt := by rw [nothing, List.append_nil]

theorem dealt_putRegistry (engine : Engine) {exchange : Exchange Identity}
    {registry : Registry Identity} (deals : (engine.registry id).Deals exchange [] registry) :
    Dealt id [exchange] [] engine (engine.putRegistry id registry) where
  deals := by
    have put : (engine.putRegistry id registry).registry id = registry := if_pos rfl
    rw [put]
    exact deals.single
  occurredAt := (List.append_nil _).symm

theorem dealt_setContent (engine : Engine) (id : RegistryId) (next : Option Identity) :
    Dealt id [.swap ⟨next, (engine.registry id).content⟩] ((engine.registry id).set next).1 engine
      (engine.setContent id next) where
  deals := by
    rw [registry_setContent]
    exact (Registry.Deals.swap next).single
  occurredAt := by rw [(engine.moved_setContent id next).occurredAt, if_pos rfl]

theorem dealt_elsewhere (engine : Engine) {operation : Operation}
    (elsewhere : operation.moved? ≠ some id) : Dealt id [] [] engine (engine.perform operation).2 := by
  cases moves : operation.moved? with
  | none =>
    have undisturbed := engine.undisturbed_perform moves
    refine .of_untouched (undisturbed.registry id) ?_
    rw [occurredAt, undisturbed.occurrences]
    rfl
  | some other =>
    obtain ⟨occurred, moved⟩ := engine.exists_moved_perform moves
    have differ : other ≠ id := fun same => elsewhere (moves.trans (congrArg some same))
    refine .of_untouched (moved.others id differ.symm) ?_
    rw [moved.occurredAt, if_neg differ, List.append_nil]

theorem exists_dealt_perform (engine : Engine) {operation : Operation} (plain : operation.Plain id) :
    ∃ occurred, Dealt id (operation.exchange? id (engine.perform operation).1).toList occurred engine
      (engine.perform operation).2 := by
  by_cases here : operation.moved? = some id
  · cases operation with
    | setContent other next =>
      cases here
      have called : Operation.exchange? id (.setContent id next)
          (engine.perform (.setContent id next)).1 =
            some (.swap ⟨next, (engine.registry id).content⟩) := if_pos rfl
      rw [called]
      exact ⟨_, engine.dealt_setContent id next⟩
    | subscribe other once reaction =>
      cases here
      obtain rfl := plain rfl
      have called : Operation.exchange? id (.subscribe id once none)
          (engine.perform (.subscribe id once none)).1 =
            some (.subscribe (engine.registry id).issued once) := if_pos rfl
      rw [called]
      exact ⟨[], engine.dealt_putRegistry (.subscribe once)⟩
    | unsubscribe other ticket =>
      cases here
      have called : Operation.exchange? id (.unsubscribe id ticket)
          (engine.perform (.unsubscribe id ticket)).1 = some (.unsubscribe ticket) := if_pos rfl
      rw [called]
      exact ⟨[], engine.dealt_putRegistry (.unsubscribe ticket)⟩
    | openRegistry other content => exact absurd (Option.some.inj here) plain
    | installDefault families other => exact absurd (Option.some.inj here) plain
    | _ => cases here
  · rw [exchange?_of_moved?_ne here]
    exact ⟨[], engine.dealt_elsewhere here⟩

theorem exists_dealt_run (engine : Engine) {operations : List Operation}
    (plain : ∀ operation ∈ operations, operation.Plain id) :
    ∃ occurred, Dealt id (engine.exchanges id operations) occurred engine (engine.run operations).2 := by
  induction operations generalizing engine with
  | nil => exact ⟨[], .of_untouched rfl rfl⟩
  | cons operation later ih =>
    obtain ⟨first, plainLater⟩ := List.forall_mem_cons.mp plain
    obtain ⟨occurred, dealt⟩ := engine.exists_dealt_perform first
    obtain ⟨occurredLater, dealtLater⟩ := ih (engine.perform operation).2 plainLater
    rw [exchanges_cons]
    exact ⟨occurred ++ occurredLater, dealt.trans dealtLater⟩

theorem quiet_run (quiet : (engine.registry id).Quiet) {operations : List Operation}
    (plain : ∀ operation ∈ operations, operation.Plain id) :
    ((engine.run operations).2.registry id).Quiet := by
  obtain ⟨_, dealt⟩ := engine.exists_dealt_run plain
  exact quiet.dealsAll dealt.deals

theorem map_next_changes_perform (engine : Engine) (id : RegistryId) (operation : Operation) :
    (changes (operation.exchange? id (engine.perform operation).1).toList).map Change.next =
      (operation.put? id).toList := by
  cases operation with
  | setContent other next =>
    by_cases here : other = id <;> simp [perform, Operation.exchange?, Operation.put?, here]
  | subscribe other once reaction =>
    by_cases here : other = id <;> simp [perform, Operation.exchange?, Operation.put?, here]
  | unsubscribe other ticket =>
    by_cases here : other = id <;> simp [Operation.exchange?, Operation.put?, here]
  | _ => rfl

theorem map_next_changes (engine : Engine) (id : RegistryId) (operations : List Operation) :
    (changes (engine.exchanges id operations)).map Change.next = operations.filterMap (·.put? id) := by
  induction operations generalizing engine with
  | nil => rfl
  | cons operation later ih =>
    rw [exchanges_cons, changes, List.filterMap_append, List.map_append, ← changes, ← changes,
      map_next_changes_perform, ih]
    cases found : operation.put? id with
    | none => rw [List.filterMap_cons_none found]; rfl
    | some next => rw [List.filterMap_cons_some found]; rfl

theorem events_of_subscribe (quiet : (engine.registry id).Quiet) {earlier later : List Operation}
    {once : Bool} (plainEarlier : ∀ operation ∈ earlier, operation.Plain id)
    (plainLater : ∀ operation ∈ later, operation.Plain id)
    (dealt : Dealt id exchanges occurred engine
      (engine.run (earlier ++ .subscribe id once none :: later)).2) :
    events ((engine.run earlier).2.registry id).issued occurred =
      heard ⟨((engine.run earlier).2.registry id).issued, once⟩
        (((engine.run earlier).2.perform (.subscribe id once none)).2.exchanges id later) := by
  rw [run_append] at dealt
  have quietBefore := quiet_run quiet plainEarlier
  obtain ⟨occurredBefore, dealtBefore⟩ := engine.exists_dealt_run plainEarlier
  generalize (engine.run earlier).2 = joined at dealt dealtBefore quietBefore ⊢
  have subscribed : Dealt id [.subscribe (joined.registry id).issued once] [] joined
      (joined.perform (.subscribe id once none)).2 := joined.dealt_putRegistry (.subscribe once)
  obtain ⟨occurredAfter, dealtAfter⟩ :=
    (joined.perform (.subscribe id once none)).2.exists_dealt_run plainLater
  have split : occurred = occurredBefore ++ occurredAfter := by
    have parts := dealtBefore.trans (subscribed.trans dealtAfter)
    exact List.append_cancel_left (dealt.occurredAt.symm.trans parts.occurredAt)
  have seated : (⟨(joined.registry id).issued, once⟩ : Seat) ∈
      ((joined.perform (.subscribe id once none)).2.registry id).seats := by
    simp [perform, putRegistry, Engine.registry, Registry.subscribe, Registry.seats, Listener.seat]
  rw [split, events_append, dealtBefore.deals.events_of_unissued quiet (Nat.le_refl _),
    dealtAfter.deals.events_of_seated (quietBefore.dealsAll subscribed.deals) seated, List.nil_append]

theorem content_of_nested (quiet : (engine.registry id).Quiet) {operations : List Operation}
    (plain : ∀ operation ∈ operations, operation.Plain id)
    (nested : Nested (changes (engine.exchanges id operations))) :
    ((engine.run operations).2.registry id).content = (engine.registry id).content := by
  obtain ⟨_, dealt⟩ := engine.exists_dealt_run plain
  obtain ⟨linked, last⟩ := dealt.deals.changes_eq quiet
  exact last.trans (getLastD_of_nested nested linked)

/-- All that occurs at a registry whose listeners swap nothing. They are called in turn about each swap, also
about one that changes nothing; a listener hears of what is swapped from its subscription until it leaves,
and of the content that the swap before put in; and swaps that are undone lead back. -/
theorem replayed_run {content : Option Identity} (opened : engine.registry id = .ofContent content)
    {operations : List Operation} (plain : ∀ operation ∈ operations, operation.Plain id) :
    ∃ occurred,
      (engine.run operations).2.occurredAt id = engine.occurredAt id ++ occurred ∧
      occurred = proceedings [] (engine.exchanges id operations) ∧
      changes (engine.exchanges id operations) = chain content (operations.filterMap (·.put? id)) ∧
      (∀ earlier once later, operations = earlier ++ .subscribe id once none :: later →
        ∃ ticket,
          ((engine.run earlier).2.perform (.subscribe id once none)).1 = .ok (.ticket ticket) ∧
          events ticket occurred = heard ⟨ticket, once⟩
            (((engine.run earlier).2.perform (.subscribe id once none)).2.exchanges id later)) ∧
      ∀ earlier block later, operations = earlier ++ (block ++ later) →
        Nested (changes ((engine.run earlier).2.exchanges id block)) →
        ((engine.run (earlier ++ block)).2.registry id).content =
          ((engine.run earlier).2.registry id).content := by
  have quiet : (engine.registry id).Quiet := by
    rw [opened]
    exact Registry.quiet_ofContent content
  obtain ⟨occurred, dealt⟩ := engine.exists_dealt_run plain
  refine ⟨occurred, dealt.occurredAt, ?_, ?_, ?_, ?_⟩
  · rw [dealt.deals.occurred_eq quiet, opened]
    rfl
  · rw [(dealt.deals.changes_eq quiet).1, opened, map_next_changes]
    rfl
  · rintro earlier once later rfl
    obtain ⟨plainEarlier, plainRest⟩ := List.forall_mem_append.mp plain
    exact ⟨_, rfl, events_of_subscribe quiet plainEarlier (List.forall_mem_cons.mp plainRest).2 dealt⟩
  · rintro earlier block later rfl nested
    obtain ⟨plainEarlier, plainRest⟩ := List.forall_mem_append.mp plain
    rw [run_append]
    exact content_of_nested (quiet_run quiet plainEarlier) (List.forall_mem_append.mp plainRest).1 nested

def excursion : List Operation :=
  [.subscribe sharedRegistry false none, .subscribe sharedRegistry true none,
    .setContent sharedRegistry (some Registry.regularIdentity),
    .setContent sharedRegistry (some Registry.boldIdentity),
    .setContent sharedRegistry (some Registry.regularIdentity),
    .unsubscribe sharedRegistry 0, .setContent sharedRegistry none]

theorem replayed_run_excursion :
    initial.registry sharedRegistry = .ofContent none ∧
      (∀ operation ∈ excursion, operation.Plain sharedRegistry) ∧
      ∃ occurred, (initial.run excursion).2.occurredAt sharedRegistry = occurred ∧
        events 0 occurred = [⟨some Registry.regularIdentity, none⟩,
          ⟨some Registry.boldIdentity, some Registry.regularIdentity⟩,
          ⟨some Registry.regularIdentity, some Registry.boldIdentity⟩] ∧
        events 1 occurred = [⟨some Registry.regularIdentity, none⟩] ∧
        ((initial.run excursion).2.registry sharedRegistry).content = none := by
  have plain : ∀ operation ∈ excursion, operation.Plain sharedRegistry := by
    simp [excursion, Operation.Plain]
  have opened : initial.registry sharedRegistry = .ofContent none := rfl
  refine ⟨opened, plain, ?_⟩
  obtain ⟨occurred, all, _, linked, shown, restored⟩ := replayed_run opened plain
  have nested : Nested (changes (initial.exchanges sharedRegistry excursion)) := by
    rw [linked]
    exact .swap (.swap .nil .nil) .nil
  obtain ⟨first, given, heardFirst⟩ := shown [] false _ rfl
  obtain ⟨second, givenSecond, heardSecond⟩ := shown [.subscribe sharedRegistry false none] true _ rfl
  cases given
  cases givenSecond
  refine ⟨occurred, all, heardFirst.trans ?_, heardSecond.trans ?_, restored [] excursion [] rfl nested⟩
  · exact congrArg (List.take 3) linked
  · exact congrArg (List.take 1) linked

end Engine

end Typeface
