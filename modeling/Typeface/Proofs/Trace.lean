import Typeface.Proofs.Cascade

/-! The swaps of a cascade, and what it shows to each listener. The swaps come one after the other, each
replacing what the one before put in. A listener that stays is shown first the swap that is newest at its
first call, then every later one as it is made; those that were made before its first call come last, in
backward order, each as the content that all have led to next to what it replaced itself. -/

set_option autoImplicit false

namespace Typeface

variable {α : Type}

/-- What a swap puts in and what it replaces, or what a call shows as these. -/
structure Change (α : Type) where
  next : Option α
  previous : Option α
  deriving DecidableEq, Repr

namespace Occurrence

def swapped? : Occurrence α → Option (Change α)
  | .swap next previous => some ⟨next, previous⟩
  | .call .. => none

def shown? (ticket : Nat) : Occurrence α → Option (Change α)
  | .swap .. => none
  | .call other next previous => if other = ticket then some ⟨next, previous⟩ else none

end Occurrence

def swaps (occurred : List (Occurrence α)) : List (Change α) :=
  occurred.filterMap Occurrence.swapped?

/-- What the listener with a ticket is shown, call by call. -/
def events (ticket : Nat) (occurred : List (Occurrence α)) : List (Change α) :=
  occurred.filterMap (Occurrence.shown? ticket)

section

variable {ticket : Nat} {next previous : Option α} {occurred later : List (Occurrence α)}

@[simp] theorem swaps_nil : swaps ([] : List (Occurrence α)) = [] := rfl

@[simp] theorem swaps_call : swaps (.call ticket next previous :: later) = swaps later := rfl

@[simp] theorem swaps_swap : swaps (.swap next previous :: later) = ⟨next, previous⟩ :: swaps later :=
  rfl

@[simp] theorem swaps_append : swaps (occurred ++ later) = swaps occurred ++ swaps later :=
  List.filterMap_append

@[simp] theorem events_nil : events ticket ([] : List (Occurrence α)) = [] := rfl

@[simp] theorem events_swap : events ticket (.swap next previous :: later) = events ticket later := rfl

theorem events_call (other : Nat) :
    events ticket (.call other next previous :: later) =
      (if other = ticket then [⟨next, previous⟩] else []) ++ events ticket later := by
  by_cases same : other = ticket <;> simp [events, Occurrence.shown?, same]

@[simp] theorem events_append :
    events ticket (occurred ++ later) = events ticket occurred ++ events ticket later :=
  List.filterMap_append

end

def chain (content : Option α) : List (Option α) → List (Change α)
  | [] => []
  | next :: later => ⟨next, content⟩ :: chain next later

@[simp] theorem length_chain (content : Option α) (nexts : List (Option α)) :
    (chain content nexts).length = nexts.length := by
  induction nexts generalizing content with
  | nil => rfl
  | cons next later ih => simp [chain, ih]

theorem chain_append (content : Option α) (nexts later : List (Option α)) :
    chain content (nexts ++ later) = chain content nexts ++ chain (nexts.getLastD content) later := by
  induction nexts generalizing content with
  | nil => rfl
  | cons next nexts ih => rw [List.cons_append, chain, chain, ih, List.getLastD_cons, List.cons_append]

section

variable {listener : Listener α} {next : Option α}

theorem pending_cons_of_none (silent : listener.pending? = none) (rest : List (Listener α)) :
    pending (listener :: rest) = pending rest := List.filterMap_cons_none silent

theorem pending_cons_of_some (swaps : listener.pending? = some next) (rest : List (Listener α)) :
    pending (listener :: rest) = next :: pending rest := List.filterMap_cons_some swaps

end

def dueTo (ticket : Nat) (due : List (Nat × Option α)) : List (Option α) :=
  due.filterMap fun (other, previous) => if other = ticket then some previous else none

section

variable {ticket : Nat} {called : List Nat} {content next previous : Option α}
  {due : List (Nat × Option α)} {listener : Listener α} {heard rest : List (Listener α)}

theorem filterMap_of_nodup {β : Type} (distinct : called.Nodup) (value : β) :
    (called.filterMap fun other => if other = ticket then some value else none) =
      if ticket ∈ called then [value] else [] := by
  induction called with
  | nil => rfl
  | cons other called ih =>
    obtain ⟨fresh, distinct⟩ := List.nodup_cons.mp distinct
    by_cases same : other = ticket
    · subst same
      simp [ih distinct, fresh]
    · simp [same, ih distinct, Ne.symm same]

@[simp] theorem dueTo_append (left right : List (Nat × Option α)) :
    dueTo ticket (left ++ right) = dueTo ticket left ++ dueTo ticket right := List.filterMap_append

theorem dueTo_announced (distinct : called.Nodup) :
    dueTo ticket (called.map (·, previous)) = if ticket ∈ called then [previous] else [] := by
  rw [← filterMap_of_nodup distinct, dueTo, List.filterMap_map]
  rfl

theorem swaps_calls : swaps (called.map (.call · next previous)) = [] := by
  simp [swaps, Occurrence.swapped?]

theorem events_calls (distinct : called.Nodup) :
    events ticket (called.map (.call · next previous)) =
      if ticket ∈ called then [⟨next, previous⟩] else [] := by
  rw [← filterMap_of_nodup distinct, events, List.filterMap_map]
  rfl

theorem swaps_repeatCalls : swaps (repeatCalls heard content due) = [] := by
  simp only [swaps, repeatCalls, List.filterMap_filterMap, List.filterMap_eq_nil_iff]
  intro entry _
  split <;> rfl

theorem events_repeatCalls_of_mem (member : ticket ∈ tickets heard) :
    events ticket (repeatCalls heard content due) = (dueTo ticket due).map (⟨content, ·⟩) := by
  rw [events, repeatCalls, List.filterMap_filterMap, dueTo, List.map_filterMap]
  apply List.filterMap_congr
  rintro ⟨other, previous⟩ _
  by_cases same : other = ticket
  · simp [same, member, Occurrence.shown?]
  · by_cases present : other ∈ tickets heard <;> simp [same, present, Occurrence.shown?]

theorem events_repeatCalls_of_not_mem (absent : ticket ∉ tickets heard) :
    events ticket (repeatCalls heard content due) = [] := by
  rw [events, repeatCalls, List.filterMap_filterMap, List.filterMap_eq_nil_iff]
  rintro ⟨other, previous⟩ _
  by_cases same : other = ticket
  · simp [same, absent]
  · by_cases present : other ∈ tickets heard <;> simp [same, present, Occurrence.shown?]

theorem swaps_cascade (heard : List (Listener α)) (content previous : Option α)
    (due : List (Nat × Option α)) (rest : List (Listener α)) :
    swaps (cascade heard content previous due rest) = chain content (pending rest) := by
  induction rest generalizing heard content previous due with
  | nil => exact swaps_repeatCalls
  | cons listener rest ih =>
    rw [cascade, swaps_call]
    cases swapping : listener.pending? with
    | none => rw [ih, pending_cons_of_none swapping]
    | some next =>
      rw [swaps_swap, swaps_append, swaps_calls, ih, pending_cons_of_some swapping]
      rfl

theorem events_cascade_of_pending?_eq_none (silent : listener.pending? = none) :
    events ticket (cascade heard content previous due (listener :: rest)) =
      (if listener.ticket = ticket then [⟨content, previous⟩] else []) ++
        events ticket (cascade (heard ++ listener.afterCall.toList) content previous due rest) := by
  rw [cascade, events_call, silent]

theorem events_cascade_of_pending?_eq_some (distinct : (tickets (heard ++ listener :: rest)).Nodup)
    (swapping : listener.pending? = some next) :
    events ticket (cascade heard content previous due (listener :: rest)) =
      (if listener.ticket = ticket then [⟨content, previous⟩] else []) ++
        ((if ticket ∈ tickets (heard ++ listener.afterCall.toList) then [⟨next, content⟩] else []) ++
          events ticket (cascade (heard ++ listener.afterCall.toList) next content
            ((tickets rest).map (·, previous) ++ due) rest)) := by
  have ⟨kept, _⟩ := nodup_tickets_append.mp (distinct_afterCall distinct)
  rw [cascade, events_call, swapping, events_swap, events_append, events_calls kept]

theorem events_cascade_of_absent (distinct : (tickets (heard ++ rest)).Nodup)
    (absent : ticket ∉ tickets (heard ++ rest)) :
    events ticket (cascade heard content previous due rest) = [] := by
  induction rest generalizing heard content previous due with
  | nil => exact events_repeatCalls_of_not_mem (by simpa using absent)
  | cons listener rest ih =>
    have distinctAfter := distinct_afterCall distinct
    have absentAfter : ticket ∉ tickets (heard ++ listener.afterCall.toList ++ rest) :=
      fun present => absent ((tickets_kept_sublist listener heard rest).subset present)
    have differ : listener.ticket ≠ ticket := by
      rintro rfl
      simp at absent
    have unkept : ticket ∉ tickets (heard ++ listener.afterCall.toList) := fun present =>
      absentAfter (tickets_append _ rest ▸ List.mem_append_left _ present)
    cases swapping : listener.pending? with
    | none =>
      rw [events_cascade_of_pending?_eq_none swapping, if_neg differ, ih distinctAfter absentAfter,
        List.nil_append]
    | some next =>
      rw [events_cascade_of_pending?_eq_some distinct swapping, if_neg differ, if_neg unkept,
        ih distinctAfter absentAfter, List.nil_append, List.nil_append]

/-- A listener that was called before is shown each swap as it is made, and what is due to it at the
end. -/
theorem events_cascade_of_heard (distinct : (tickets (heard ++ rest)).Nodup)
    (member : ticket ∈ tickets heard) :
    events ticket (cascade heard content previous due rest) =
      chain content (pending rest) ++
        (dueTo ticket due).map (⟨(pending rest).getLastD content, ·⟩) := by
  induction rest generalizing heard content previous due with
  | nil => exact events_repeatCalls_of_mem member
  | cons listener rest ih =>
    have distinctAfter := distinct_afterCall distinct
    obtain ⟨_, _, apart⟩ := nodup_tickets_append.mp distinct
    obtain ⟨differ, passed⟩ : ticket ≠ listener.ticket ∧ ticket ∉ tickets rest := by
      simpa using apart ticket member
    obtain ⟨_, distinctRest, _⟩ := nodup_tickets_append.mp distinctAfter
    have kept : ticket ∈ tickets (heard ++ listener.afterCall.toList) := by simp [member]
    cases swapping : listener.pending? with
    | none =>
      rw [events_cascade_of_pending?_eq_none swapping, if_neg (Ne.symm differ), ih distinctAfter kept,
        pending_cons_of_none swapping, List.nil_append]
    | some next =>
      rw [events_cascade_of_pending?_eq_some distinct swapping, if_neg (Ne.symm differ), if_pos kept,
        ih distinctAfter kept, pending_cons_of_some swapping, dueTo_append,
        dueTo_announced distinctRest, if_neg passed, List.getLastD_cons]
      rfl

/-- What a listener is shown of swaps made one after the other, when it was not called yet as the first of
them were made: each of the others as it is made, and then those it had missed, the latest first and next
to the content that all have led to. -/
def shownOf (missed : Nat) (final : Option α) (changes : List (Change α)) : List (Change α) :=
  changes.drop missed ++ (changes.take missed).reverse.map fun change => ⟨final, change.previous⟩

theorem shownOf_zero (final : Option α) (changes : List (Change α)) :
    shownOf 0 final changes = changes := by
  simp [shownOf]

theorem shownOf_succ (missed : Nat) (final : Option α) (change : Change α) (changes : List (Change α)) :
    shownOf (missed + 1) final (change :: changes) =
      shownOf missed final changes ++ [⟨final, change.previous⟩] := by
  simp [shownOf]

theorem apart_of_awaited (distinct : (tickets (heard ++ listener :: rest)).Nodup)
    (awaited : ticket ∈ tickets rest) :
    listener.ticket ≠ ticket ∧ ticket ∉ tickets (heard ++ listener.afterCall.toList) := by
  obtain ⟨_, own, _⟩ := nodup_tickets_append.mp distinct
  obtain ⟨_, _, apart⟩ := nodup_tickets_append.mp (distinct_afterCall distinct)
  refine ⟨?_, fun present => apart ticket present awaited⟩
  rintro rfl
  exact (nodup_tickets_cons.mp own).1 awaited

variable {earlier later : List (Listener α)}

theorem events_cascade_of_stays
    (distinct : (tickets (heard ++ (earlier ++ listener :: later))).Nodup)
    (stays : listener.afterCall.isSome) :
    events listener.ticket (cascade heard content previous due (earlier ++ listener :: later)) =
      shownOf (pending earlier).length ((pending (earlier ++ listener :: later)).getLastD content)
        (⟨content, previous⟩ :: chain content (pending (earlier ++ listener :: later))) ++
      (dueTo listener.ticket due).map
        (⟨(pending (earlier ++ listener :: later)).getLastD content, ·⟩) := by
  induction earlier generalizing heard content previous due with
  | nil =>
    rw [List.nil_append] at distinct ⊢
    have distinctAfter := distinct_afterCall distinct
    obtain ⟨_, distinctRest, _⟩ := nodup_tickets_append.mp distinct
    obtain ⟨passed, distinctLater⟩ := nodup_tickets_cons.mp distinctRest
    have kept : listener.ticket ∈ tickets (heard ++ listener.afterCall.toList) := by
      obtain ⟨remaining, found⟩ := Option.isSome_iff_exists.mp stays
      simp [found, Listener.ticket_of_afterCall found]
    cases swapping : listener.pending? with
    | none =>
      rw [events_cascade_of_pending?_eq_none swapping, if_pos rfl,
        events_cascade_of_heard distinctAfter kept, pending_cons_of_none swapping]
      simp [pending, shownOf_zero]
    | some next =>
      rw [events_cascade_of_pending?_eq_some distinct swapping, if_pos rfl, if_pos kept,
        events_cascade_of_heard distinctAfter kept, pending_cons_of_some swapping, dueTo_append,
        dueTo_announced distinctLater, if_neg passed, List.getLastD_cons]
      simp [pending, shownOf_zero, chain]
  | cons other earlier ih =>
    rw [List.cons_append] at distinct ⊢
    have distinctAfter := distinct_afterCall distinct
    have awaited : listener.ticket ∈ tickets (earlier ++ listener :: later) := by simp
    obtain ⟨_, distinctRest, _⟩ := nodup_tickets_append.mp distinctAfter
    obtain ⟨differ, unkept⟩ := apart_of_awaited distinct awaited
    cases swapping : other.pending? with
    | none =>
      rw [events_cascade_of_pending?_eq_none swapping, if_neg differ, ih distinctAfter,
        pending_cons_of_none swapping, pending_cons_of_none swapping, List.nil_append]
    | some next =>
      rw [events_cascade_of_pending?_eq_some distinct swapping, if_neg differ, if_neg unkept,
        ih distinctAfter, pending_cons_of_some swapping, pending_cons_of_some swapping, dueTo_append,
        dueTo_announced distinctRest, if_pos awaited, List.getLastD_cons, List.length_cons, shownOf_succ]
      simp [chain]

theorem events_cascade_of_leaves
    (distinct : (tickets (heard ++ (earlier ++ listener :: later))).Nodup)
    (leaves : listener.afterCall = none) :
    events listener.ticket (cascade heard content previous due (earlier ++ listener :: later)) =
      ((⟨content, previous⟩ :: chain content (pending (earlier ++ listener :: later))).drop
        (pending earlier).length).take 1 := by
  induction earlier generalizing heard content previous due with
  | nil =>
    rw [List.nil_append] at distinct ⊢
    have distinctAfter := distinct_afterCall distinct
    have gone : listener.ticket ∉ tickets (heard ++ listener.afterCall.toList ++ later) := by
      obtain ⟨_, own, apart⟩ := nodup_tickets_append.mp distinct
      have absent : listener.ticket ∉ tickets heard := fun present => apart _ present (by simp)
      simpa [leaves, absent] using (nodup_tickets_cons.mp own).1
    cases swapping : listener.pending? with
    | none =>
      rw [events_cascade_of_pending?_eq_none swapping, if_pos rfl,
        events_cascade_of_absent distinctAfter gone]
      simp [pending]
    | some next =>
      have unkept : listener.ticket ∉ tickets (heard ++ listener.afterCall.toList) :=
        fun present => gone (tickets_append _ later ▸ List.mem_append_left _ present)
      rw [events_cascade_of_pending?_eq_some distinct swapping, if_pos rfl, if_neg unkept,
        events_cascade_of_absent distinctAfter gone]
      simp [pending]
  | cons other earlier ih =>
    rw [List.cons_append] at distinct ⊢
    have distinctAfter := distinct_afterCall distinct
    have awaited : listener.ticket ∈ tickets (earlier ++ listener :: later) := by simp
    obtain ⟨differ, unkept⟩ := apart_of_awaited distinct awaited
    cases swapping : other.pending? with
    | none =>
      rw [events_cascade_of_pending?_eq_none swapping, if_neg differ, ih distinctAfter,
        pending_cons_of_none swapping, pending_cons_of_none swapping, List.nil_append]
    | some next =>
      rw [events_cascade_of_pending?_eq_some distinct swapping, if_neg differ, if_neg unkept,
        ih distinctAfter, pending_cons_of_some swapping, pending_cons_of_some swapping,
        List.length_cons, List.drop_succ_cons]
      rfl

end

section

variable {missed : Nat} {final content next : Option α} {changes : List (Change α)}

theorem map_previous_shownOf (missed : Nat) (final : Option α) (changes : List (Change α)) :
    ((shownOf missed final changes).map Change.previous).Perm (changes.map Change.previous) := by
  have late : ((changes.take missed).reverse.map fun change => (⟨final, change.previous⟩ : Change α)).map
      Change.previous = ((changes.take missed).map Change.previous).reverse := by
    simp [Function.comp_def]
  rw [shownOf, List.map_append, late]
  refine (List.perm_append_comm.trans ((List.reverse_perm _).append_right _)).trans ?_
  rw [← List.map_append, List.take_append_drop]

theorem getLast?_shownOf (ends : changes.getLast?.map Change.next = some final) (missed : Nat) :
    (shownOf missed final changes).getLast?.map Change.next = some final := by
  cases missed with
  | zero => rwa [shownOf_zero]
  | succ missed =>
    cases changes with
    | nil => cases ends
    | cons change changes => simp [shownOf_succ]

theorem getLast?_chain (content next : Option α) (later : List (Option α)) :
    (chain content (next :: later)).getLast?.map Change.next = some (later.getLastD next) := by
  induction later generalizing content next with
  | nil => rfl
  | cons other later ih =>
    rw [chain, chain, List.getLast?_cons_cons, List.getLastD_cons]
    exact ih next other

end

end Typeface
