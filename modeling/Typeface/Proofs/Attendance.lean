import Typeface.Proofs.Trace

/-! Who attends which swaps, where no listener swaps the content itself. Every swap is then announced once to
all who are subscribed, in the order of their subscription, and those who leave at their first call are not
there for the next one. What a listener hears therefore depends on the calls to the registry after its own
subscription alone: it is every swap until its subscription ends. -/

set_option autoImplicit false

namespace Typeface

variable {α : Type}

/-- A call to a registry with its answer, which is what a swap replaced, or the ticket of a subscription. -/
inductive Exchange (α : Type) where
  | swap (change : Change α)
  | subscribe (ticket : Nat) (once : Bool)
  | unsubscribe (ticket : Nat)
  deriving DecidableEq, Repr

/-- A subscription: its ticket, and whether it ends with the first call. -/
structure Seat where
  ticket : Nat
  once : Bool
  deriving DecidableEq, Repr

namespace Exchange

def change? : Exchange α → Option (Change α)
  | .swap change => some change
  | _ => none

def ends (ticket : Nat) : Exchange α → Bool
  | .unsubscribe other => other = ticket
  | _ => false

def seated (seats : List Seat) : Exchange α → List Seat
  | .swap _ => seats.filter fun seat => !seat.once
  | .subscribe ticket once => seats ++ [⟨ticket, once⟩]
  | .unsubscribe ticket => seats.filter fun seat => seat.ticket ≠ ticket

/-- What an exchange brings about: a swap, and a call for each subscription in their order. -/
def occurrences (seats : List Seat) : Exchange α → List (Occurrence α)
  | .swap change =>
    .swap change.next change.previous ::
      seats.map fun seat => .call seat.ticket change.next change.previous
  | _ => []

end Exchange

def changes (exchanges : List (Exchange α)) : List (Change α) := exchanges.filterMap Exchange.change?

def proceedings (seats : List Seat) : List (Exchange α) → List (Occurrence α)
  | [] => []
  | exchange :: later =>
    exchange.occurrences seats ++ proceedings (exchange.seated seats) later

/-- What a listener is to hear of the exchanges after its subscription: the changes until it is
unsubscribed, or only the first of them if it leaves at its first call. -/
def heard (seat : Seat) (exchanges : List (Exchange α)) : List (Change α) :=
  let attended := changes (exchanges.takeWhile fun exchange => !exchange.ends seat.ticket)
  if seat.once then attended.take 1 else attended

section

variable {seat : Seat} {later : List (Exchange α)}

@[simp] theorem changes_nil : changes ([] : List (Exchange α)) = [] := rfl

@[simp] theorem changes_swap (change : Change α) :
    changes (.swap change :: later) = change :: changes later := rfl

@[simp] theorem changes_subscribe (ticket : Nat) (once : Bool) :
    changes (.subscribe ticket once :: later) = changes later := rfl

@[simp] theorem changes_unsubscribe (ticket : Nat) :
    changes (.unsubscribe ticket :: later) = changes later := rfl

theorem heard_swap (change : Change α) :
    heard seat (.swap change :: later) = change :: if seat.once then [] else heard seat later := by
  cases once : seat.once <;> simp [heard, once, Exchange.ends]

theorem heard_subscribe (ticket : Nat) (once : Bool) :
    heard seat (.subscribe ticket once :: later) = heard seat later := by
  simp [heard, Exchange.ends]

theorem heard_unsubscribe (ticket : Nat) :
    heard seat (.unsubscribe ticket :: later) =
      if ticket = seat.ticket then [] else heard seat later := by
  by_cases same : ticket = seat.ticket <;> simp [heard, same, Exchange.ends]

theorem events_occurrences {seats : List Seat} (distinct : (seats.map Seat.ticket).Nodup)
    (ticket : Nat) (exchange : Exchange α) :
    events ticket (exchange.occurrences seats) =
      if ticket ∈ seats.map Seat.ticket then exchange.change?.toList else [] := by
  cases exchange with
  | swap change =>
    have calls : events ticket
        ((seats.map Seat.ticket).map (.call · change.next change.previous)) =
          if ticket ∈ seats.map Seat.ticket then [change] else [] := events_calls distinct
    rw [List.map_map] at calls
    exact calls
  | subscribe other once => simp [Exchange.occurrences, Exchange.change?]
  | unsubscribe other => simp [Exchange.occurrences, Exchange.change?]

end

def Listener.seat (listener : Listener α) : Seat := ⟨listener.ticket, listener.once⟩

theorem cascade_of_silent {rest : List (Listener α)}
    (silent : ∀ listener ∈ rest, listener.pending? = none) (heard : List (Listener α))
    (content previous : Option α) :
    cascade heard content previous [] rest = (tickets rest).map (.call · content previous) := by
  induction rest generalizing heard with
  | nil => rfl
  | cons listener rest ih =>
    obtain ⟨quiet, silent⟩ := List.forall_mem_cons.mp silent
    rw [cascade, quiet, ih silent]
    rfl

namespace Registry

variable {registry after : Registry α} {exchange : Exchange α} {occurred : List (Occurrence α)}

def seats (registry : Registry α) : List Seat := registry.listeners.map Listener.seat

theorem map_ticket_seats (registry : Registry α) :
    registry.seats.map Seat.ticket = tickets registry.listeners := List.map_map

/-- No listener swaps the content, and those that leave at their first call have yet to be called. -/
structure Quiet (registry : Registry α) : Prop extends registry.Ticketed where
  silent : ∀ listener ∈ registry.listeners, listener.reaction = none
  awaiting : ∀ listener ∈ registry.listeners, listener.once = true → listener.called = false

theorem quiet_ofContent (content : Option α) : (ofContent content).Quiet :=
  ⟨ticketed_ofContent content, by simp [ofContent], by simp [ofContent]⟩

theorem Quiet.set_eq (quiet : registry.Quiet) (next : Option α) :
    registry.set next =
      (.swap next registry.content :: (tickets registry.listeners).map (.call · next registry.content),
        ⟨next, registry.listeners.filterMap Listener.afterCall, registry.issued⟩) := by
  have silent : ∀ listener ∈ registry.listeners, listener.pending? = none := by
    intro listener member
    rw [Listener.pending?, quiet.silent listener member, ite_self]
  have nothing : pending registry.listeners = [] := List.filterMap_eq_nil_iff.mpr silent
  rw [set_eq_cascade quiet.distinct, cascade_of_silent silent, nothing]
  rfl

inductive Deals (registry : Registry α) :
    Exchange α → List (Occurrence α) → Registry α → Prop where
  | swap (next : Option α) :
    registry.Deals (.swap ⟨next, registry.content⟩) (registry.set next).1 (registry.set next).2
  | subscribe (once : Bool) :
    registry.Deals (.subscribe registry.issued once) [] (registry.subscribe once none)
  | unsubscribe (ticket : Nat) :
    registry.Deals (.unsubscribe ticket) [] (registry.unsubscribe ticket)

theorem map_seat_filterMap_afterCall {listeners : List (Listener α)}
    (awaiting : ∀ listener ∈ listeners, listener.once = true → listener.called = false) :
    (listeners.filterMap Listener.afterCall).map Listener.seat =
      (listeners.map Listener.seat).filter fun seat => !seat.once := by
  rw [List.map_filterMap, ← List.filterMap_eq_filter, List.filterMap_map]
  apply List.filterMap_congr
  intro listener member
  have first := awaiting listener member
  cases once : listener.once <;> cases called : listener.called <;>
    simp_all [Listener.afterCall, Listener.seat, Option.guard]

theorem Quiet.seats_of_deals (quiet : registry.Quiet) (deals : registry.Deals exchange occurred after) :
    after.seats = exchange.seated registry.seats := by
  cases deals with
  | swap next =>
    rw [quiet.set_eq]
    exact map_seat_filterMap_afterCall quiet.awaiting
  | subscribe once => exact List.map_append
  | unsubscribe ticket =>
    simp only [seats, Registry.unsubscribe, Exchange.seated, List.filter_map]
    rfl

theorem Quiet.occurred_of_deals (quiet : registry.Quiet)
    (deals : registry.Deals exchange occurred after) :
    occurred = exchange.occurrences registry.seats := by
  cases deals with
  | swap next =>
    rw [quiet.set_eq, ← map_ticket_seats, List.map_map]
    rfl
  | subscribe once => rfl
  | unsubscribe ticket => rfl

theorem Quiet.deals (quiet : registry.Quiet) (deals : registry.Deals exchange occurred after) :
    after.Quiet := by
  cases deals with
  | swap next =>
    have kept : ∀ listener ∈ (registry.set next).2.listeners,
        listener.reaction = none ∧ (listener.once = true → listener.called = false) := by
      rw [quiet.set_eq]
      intro listener member
      obtain ⟨origin, originMember, stays⟩ := List.mem_filterMap.mp member
      have silent := quiet.silent origin originMember
      have awaiting := quiet.awaiting origin originMember
      unfold Listener.afterCall at stays
      grind
    exact ⟨quiet.toTicketed.set next, fun listener member => (kept listener member).1,
      fun listener member => (kept listener member).2⟩
  | subscribe once =>
    exact ⟨quiet.toTicketed.subscribe once none,
      List.forall_mem_append.mpr ⟨quiet.silent, by simp⟩,
      List.forall_mem_append.mpr ⟨quiet.awaiting, by simp⟩⟩
  | unsubscribe ticket =>
    exact ⟨quiet.toTicketed.unsubscribe ticket,
      fun listener member => quiet.silent listener (List.mem_filter.mp member).1,
      fun listener member => quiet.awaiting listener (List.mem_filter.mp member).1⟩

theorem Deals.issued_le (deals : registry.Deals exchange occurred after) (quiet : registry.Quiet) :
    registry.issued ≤ after.issued := by
  cases deals with
  | swap next =>
    have kept : (registry.set next).2.issued = registry.issued := by rw [quiet.set_eq]
    exact Nat.le_of_eq kept.symm
  | subscribe once => exact Nat.le_succ _
  | unsubscribe ticket => exact Nat.le_refl _

inductive DealsAll : Registry α → List (Exchange α) → List (Occurrence α) → Registry α → Prop where
  | nil (registry : Registry α) : DealsAll registry [] [] registry
  | cons {registry middle final : Registry α} {exchange : Exchange α}
    {exchanges : List (Exchange α)} {occurred later : List (Occurrence α)}
    (first : registry.Deals exchange occurred middle)
    (rest : DealsAll middle exchanges later final) :
    DealsAll registry (exchange :: exchanges) (occurred ++ later) final

variable {final : Registry α} {exchanges : List (Exchange α)} {seat : Seat} {ticket : Nat}

theorem Deals.single (deals : registry.Deals exchange occurred after) :
    registry.DealsAll [exchange] occurred after := by
  rw [← List.append_nil occurred]
  exact .cons deals (.nil after)

theorem DealsAll.trans {middle : Registry α} {rest : List (Exchange α)}
    {later : List (Occurrence α)} (first : registry.DealsAll exchanges occurred middle)
    (second : middle.DealsAll rest later final) :
    registry.DealsAll (exchanges ++ rest) (occurred ++ later) final := by
  induction first with
  | nil => exact second
  | cons deals _ ih =>
    rw [List.cons_append, List.append_assoc]
    exact .cons deals (ih second)

theorem Quiet.dealsAll (quiet : registry.Quiet)
    (deals : registry.DealsAll exchanges occurred final) : final.Quiet := by
  induction deals with
  | nil => exact quiet
  | cons first rest ih => exact ih (quiet.deals first)

theorem DealsAll.issued_le (deals : registry.DealsAll exchanges occurred final)
    (quiet : registry.Quiet) : registry.issued ≤ final.issued := by
  induction deals with
  | nil => exact Nat.le_refl _
  | cons first rest ih => exact Nat.le_trans (first.issued_le quiet) (ih (quiet.deals first))

/-- All that occurs is that the listeners who are subscribed are called in turn about each swap. -/
theorem DealsAll.occurred_eq (deals : registry.DealsAll exchanges occurred final)
    (quiet : registry.Quiet) : occurred = proceedings registry.seats exchanges := by
  induction deals with
  | nil => rfl
  | cons first rest ih =>
    rw [proceedings, ← quiet.occurred_of_deals first, ← quiet.seats_of_deals first,
      ih (quiet.deals first)]

theorem DealsAll.changes_eq (deals : registry.DealsAll exchanges occurred final)
    (quiet : registry.Quiet) :
    changes exchanges = chain registry.content ((changes exchanges).map Change.next) ∧
      final.content = ((changes exchanges).map Change.next).getLastD registry.content := by
  induction deals with
  | nil => exact ⟨rfl, rfl⟩
  | cons first rest ih =>
    obtain ⟨linked, last⟩ := ih (quiet.deals first)
    cases first with
    | swap next =>
      rw [quiet.set_eq] at linked last
      rw [changes_swap, List.map_cons, List.getLastD_cons, chain, ← linked]
      exact ⟨rfl, last⟩
    | subscribe once => exact ⟨linked, last⟩
    | unsubscribe ticket => exact ⟨linked, last⟩

theorem Quiet.nodup_seats (quiet : registry.Quiet) : (registry.seats.map Seat.ticket).Nodup := by
  rw [map_ticket_seats]
  exact quiet.distinct

theorem Quiet.events_of_deals (quiet : registry.Quiet)
    (deals : registry.Deals exchange occurred after) (ticket : Nat) :
    events ticket occurred =
      if ticket ∈ registry.seats.map Seat.ticket then exchange.change?.toList else [] := by
  rw [quiet.occurred_of_deals deals]
  exact events_occurrences quiet.nodup_seats ticket exchange

theorem Quiet.lt_issued_of_seated (quiet : registry.Quiet)
    (seated : ticket ∈ registry.seats.map Seat.ticket) : ticket < registry.issued :=
  quiet.lt_issued ticket (map_ticket_seats registry ▸ seated)

theorem DealsAll.events_of_unissued (deals : registry.DealsAll exchanges occurred final)
    (quiet : registry.Quiet) (unissued : final.issued ≤ ticket) : events ticket occurred = [] := by
  induction deals with
  | nil => rfl
  | @cons registry middle final exchange exchanges occurred later first rest ih =>
    have issued := Nat.le_trans (first.issued_le quiet) (rest.issued_le (quiet.deals first))
    have absent : ticket ∉ registry.seats.map Seat.ticket := fun seated =>
      Nat.not_lt.mpr (Nat.le_trans issued unissued) (quiet.lt_issued_of_seated seated)
    rw [events_append, quiet.events_of_deals first, if_neg absent, ih (quiet.deals first) unissued,
      List.append_nil]

theorem Quiet.not_seated_of_deals (quiet : registry.Quiet)
    (deals : registry.Deals exchange occurred after) (issued : ticket < registry.issued)
    (gone : ticket ∉ registry.seats.map Seat.ticket) : ticket ∉ after.seats.map Seat.ticket := by
  rw [quiet.seats_of_deals deals]
  intro seated
  cases deals with
  | swap next => exact gone ((List.filter_sublist.map _).subset seated)
  | subscribe once =>
    simp only [Exchange.seated, List.map_append, List.map_singleton, List.mem_append,
      List.mem_singleton] at seated
    rcases seated with seated | rfl
    · exact gone seated
    · exact Nat.lt_irrefl _ issued
  | unsubscribe other => exact gone ((List.filter_sublist.map _).subset seated)

theorem DealsAll.events_of_gone (deals : registry.DealsAll exchanges occurred final)
    (quiet : registry.Quiet) (issued : ticket < registry.issued)
    (gone : ticket ∉ registry.seats.map Seat.ticket) : events ticket occurred = [] := by
  induction deals with
  | nil => rfl
  | cons first rest ih =>
    have still := quiet.not_seated_of_deals first issued gone
    rw [events_append, quiet.events_of_deals first, if_neg gone,
      ih (quiet.deals first) (Nat.lt_of_lt_of_le issued (first.issued_le quiet)) still, List.append_nil]

theorem Quiet.ticket_not_mem (quiet : registry.Quiet) (seated : seat ∈ registry.seats)
    {keeps : Seat → Bool} (leaves : keeps seat = false) :
    seat.ticket ∉ (registry.seats.filter keeps).map Seat.ticket := by
  intro member
  obtain ⟨other, kept, same⟩ := List.mem_map.mp member
  obtain ⟨otherSeated, stays⟩ := List.mem_filter.mp kept
  obtain rfl := List.inj_on_of_nodup_map quiet.nodup_seats otherSeated seated same
  rw [leaves] at stays
  cases stays

theorem DealsAll.events_of_seated (deals : registry.DealsAll exchanges occurred final)
    (quiet : registry.Quiet) (seated : seat ∈ registry.seats) :
    events seat.ticket occurred = heard seat exchanges := by
  induction deals with
  | nil => simp [heard]
  | @cons registry middle final exchange exchanges occurred later first rest ih =>
    have quietAfter := quiet.deals first
    have seats := quiet.seats_of_deals first
    have present : seat.ticket ∈ registry.seats.map Seat.ticket := List.mem_map_of_mem seated
    have issued := Nat.lt_of_lt_of_le (quiet.lt_issued_of_seated present) (first.issued_le quiet)
    rw [events_append, quiet.events_of_deals first, if_pos present]
    cases first with
    | swap next =>
      rw [heard_swap]
      cases leaves : seat.once with
      | true =>
        have gone : seat.ticket ∉ ((registry.set next).2).seats.map Seat.ticket := by
          rw [seats]
          exact quiet.ticket_not_mem seated (by simp [leaves])
        rw [rest.events_of_gone quietAfter issued gone]
        rfl
      | false =>
        rw [ih quietAfter (by rw [seats]; exact List.mem_filter.mpr ⟨seated, by simp [leaves]⟩)]
        rfl
    | subscribe once =>
      rw [heard_subscribe]
      exact ih quietAfter (by rw [seats]; exact List.mem_append_left _ seated)
    | unsubscribe other =>
      rw [heard_unsubscribe]
      split
      next same =>
        refine rest.events_of_gone quietAfter issued ?_
        rw [seats]
        exact quiet.ticket_not_mem seated (by simp [same])
      next differ =>
        refine ih quietAfter ?_
        rw [seats]
        exact List.mem_filter.mpr ⟨seated, by simpa using Ne.symm differ⟩

end Registry

end Typeface
