import Mathlib.Data.List.Nodup
import Typeface.Proofs.Delivery

/-! What one swap sets off, in closed form. Listeners are called in the order of their subscription, and
one that swaps the content in turn has all before it called about that swap at once; those after it hear
of the newest swap first, and of the swaps before it when all have been called. So the swaps come in the
order of the listeners that make them, and each listener that had not been called makes its swap once. -/

set_option autoImplicit false

namespace Typeface

variable {α : Type}

namespace Listener

def pending? (listener : Listener α) : Option (Option α) :=
  if listener.called then none else listener.reaction

def afterCall (listener : Listener α) : Option (Listener α) :=
  if listener.called then some listener
  else if listener.once then none else some { listener with called := true }

theorem ticket_of_afterCall {listener kept : Listener α} (stays : listener.afterCall = some kept) :
    kept.ticket = listener.ticket := by
  unfold afterCall at stays
  grind

theorem called_of_afterCall {listener kept : Listener α} (stays : listener.afterCall = some kept) :
    kept.called = true := by
  unfold afterCall at stays
  grind

end Listener

def pending (listeners : List (Listener α)) : List (Option α) :=
  listeners.filterMap Listener.pending?

def tickets (listeners : List (Listener α)) : List Nat := listeners.map Listener.ticket

@[simp] theorem tickets_nil : tickets ([] : List (Listener α)) = [] := rfl

@[simp] theorem tickets_cons (listener : Listener α) (rest : List (Listener α)) :
    tickets (listener :: rest) = listener.ticket :: tickets rest := rfl

@[simp] theorem tickets_append (left right : List (Listener α)) :
    tickets (left ++ right) = tickets left ++ tickets right := List.map_append

theorem nodup_tickets_cons {listener : Listener α} {rest : List (Listener α)} :
    (tickets (listener :: rest)).Nodup ↔ listener.ticket ∉ tickets rest ∧ (tickets rest).Nodup :=
  List.nodup_cons

theorem nodup_tickets_append {left right : List (Listener α)} :
    (tickets (left ++ right)).Nodup ↔
      (tickets left).Nodup ∧ (tickets right).Nodup ∧
        ∀ ticket ∈ tickets left, ticket ∉ tickets right := by
  simp only [tickets_append, List.nodup_append, ← List.disjoint_iff_ne]
  rfl

theorem tickets_afterCall_sublist (listener : Listener α) :
    (tickets listener.afterCall.toList).Sublist [listener.ticket] := by
  cases stays : listener.afterCall with
  | none => simp
  | some kept => simp [Listener.ticket_of_afterCall stays]

theorem tickets_filterMap_afterCall_sublist (listeners : List (Listener α)) :
    (tickets (listeners.filterMap Listener.afterCall)).Sublist (tickets listeners) := by
  induction listeners with
  | nil => exact .slnil
  | cons listener rest ih =>
    rw [List.filterMap_cons]
    split
    next => exact ih.trans (List.sublist_cons_self _ _)
    next kept stays => simpa [Listener.ticket_of_afterCall stays] using ih

section

variable {listener : Listener α} {heard rest : List (Listener α)}

theorem tickets_kept_sublist (listener : Listener α) (heard rest : List (Listener α)) :
    (tickets (heard ++ listener.afterCall.toList ++ rest)).Sublist
      (tickets (heard ++ listener :: rest)) := by
  simp only [tickets_append, tickets_cons, List.append_assoc]
  exact (List.Sublist.refl _).append ((tickets_afterCall_sublist listener).append (.refl _))

theorem distinct_afterCall (distinct : (tickets (heard ++ listener :: rest)).Nodup) :
    (tickets (heard ++ listener.afterCall.toList ++ rest)).Nodup :=
  distinct.sublist (tickets_kept_sublist listener heard rest)

theorem called_afterCall (again : ∀ listener ∈ heard, listener.called = true) (listener : Listener α) :
    ∀ other ∈ heard ++ listener.afterCall.toList, other.called = true := by
  refine List.forall_mem_append.mpr ⟨again, ?_⟩
  intro other kept
  exact Listener.called_of_afterCall (Option.mem_toList.mp kept)

end

/-- The calls that are due to listeners that were all called before. -/
def repeatCalls (listeners : List (Listener α)) (content : Option α) (due : List (Nat × Option α)) :
    List (Occurrence α) :=
  due.filterMap fun (ticket, previous) =>
    if ticket ∈ tickets listeners then some (.call ticket content previous) else none

/-- What occurs when the rest of the listeners are to be called about a swap and those that were heard
have been, with calls due afterwards. -/
def cascade (heard : List (Listener α)) (content previous : Option α) (due : List (Nat × Option α)) :
    List (Listener α) → List (Occurrence α)
  | [] => repeatCalls heard content due
  | listener :: rest =>
    .call listener.ticket content previous ::
      match listener.pending? with
      | none => cascade (heard ++ listener.afterCall.toList) content previous due rest
      | some next =>
        .swap next content ::
          ((tickets (heard ++ listener.afterCall.toList)).map (.call · next content) ++
            cascade (heard ++ listener.afterCall.toList) next content
              ((tickets rest).map (·, previous) ++ due) rest)

namespace Registry

variable {registry : Registry α} {ticket issued : Nat} {content previous : Option α}
  {due : List (Nat × Option α)} {listener : Listener α} {heard rest listeners : List (Listener α)}

theorem announcement_eq (registry : Registry α) (previous : Option α) :
    registry.announcement previous = (tickets registry.listeners).map (·, previous) := by
  simp [announcement, tickets]

theorem listener?_of_mem (distinct : (tickets registry.listeners).Nodup)
    (member : listener ∈ registry.listeners) :
    registry.listener? listener.ticket = some listener := by
  cases found : registry.listener? listener.ticket with
  | none =>
    have absent := List.find?_eq_none.mp found listener member
    exact absurd (decide_eq_true rfl) absent
  | some other =>
    have same : other.ticket = listener.ticket := by simpa using List.find?_some found
    rw [List.inj_on_of_nodup_map distinct (List.mem_of_find?_eq_some found) member same]

theorem listener?_eq_none (absent : ticket ∉ tickets registry.listeners) :
    registry.listener? ticket = none := by
  rw [listener?, List.find?_eq_none]
  intro listener member same
  exact absent (List.mem_map.mpr ⟨listener, member, of_decide_eq_true same⟩)

theorem afterFirstCall_eq (distinct : (tickets (heard ++ listener :: rest)).Nodup)
    (first : listener.called = false) :
    afterFirstCall ⟨content, heard ++ listener :: rest, issued⟩ listener.ticket =
      ⟨content, heard ++ listener.afterCall.toList ++ rest, issued⟩ := by
  have others (list : List (Listener α)) (absent : listener.ticket ∉ tickets list) :
      (list.filterMap fun other =>
        if other.ticket = listener.ticket then
          if other.once then none else some { other with called := true }
        else some other) = list := by
    conv_rhs => rw [← List.filterMap_some (l := list)]
    refine List.filterMap_congr fun other member => if_neg fun same => absent ?_
    exact List.mem_map.mpr ⟨other, member, same⟩
  obtain ⟨before, after⟩ : listener.ticket ∉ tickets heard ∧ listener.ticket ∉ tickets rest := by
    rw [tickets_append, tickets_cons, List.nodup_middle, List.nodup_cons, List.mem_append] at distinct
    exact not_or.mp distinct.1
  simp only [afterFirstCall, List.filterMap_append, List.filterMap_cons, others heard before,
    others rest after, if_true, Listener.afterCall, first]
  cases listener.once <;> simp

theorem deliver_of_mem_called (distinct : (tickets registry.listeners).Nodup)
    (again : ∀ listener ∈ listeners, listener ∈ registry.listeners ∧ listener.called = true) :
    registry.deliver ((tickets listeners).map (·, previous) ++ due) =
      ((tickets listeners).map (.call · registry.content previous) ++ (registry.deliver due).1,
        (registry.deliver due).2) := by
  induction listeners with
  | nil => rfl
  | cons listener rest ih =>
    obtain ⟨⟨member, called⟩, again⟩ := List.forall_mem_cons.mp again
    simp only [tickets_cons, List.map_cons, List.cons_append]
    rw [deliver_of_called (listener?_of_mem distinct member) called, ih again]

theorem deliver_announcement (distinct : (tickets (heard ++ rest)).Nodup)
    (again : ∀ listener ∈ heard, listener.called = true) :
    deliver ⟨content, heard ++ rest, issued⟩ ((tickets (heard ++ rest)).map (·, previous) ++ due) =
      let later := deliver ⟨content, heard ++ rest, issued⟩ ((tickets rest).map (·, previous) ++ due)
      ((tickets heard).map (.call · content previous) ++ later.1, later.2) := by
  rw [tickets_append, List.map_append, List.append_assoc]
  exact deliver_of_mem_called distinct
    fun listener member => ⟨List.mem_append_left rest member, again listener member⟩

theorem deliver_of_forall_called (distinct : (tickets registry.listeners).Nodup)
    (again : ∀ listener ∈ registry.listeners, listener.called = true) :
    registry.deliver due = (repeatCalls registry.listeners registry.content due, registry) := by
  induction due with
  | nil => rw [deliver]; rfl
  | cons entry due ih =>
    obtain ⟨ticket, previous⟩ := entry
    by_cases member : ticket ∈ tickets registry.listeners
    · obtain ⟨listener, found, rfl⟩ := List.mem_map.mp member
      rw [deliver_of_called (listener?_of_mem distinct found) (again listener found), ih]
      simp [repeatCalls, member]
    · rw [deliver_of_none (listener?_eq_none member), ih]
      simp [repeatCalls, member]

theorem deliver_of_pending?_eq_none (distinct : (tickets (heard ++ listener :: rest)).Nodup)
    (silent : listener.pending? = none) :
    deliver ⟨content, heard ++ listener :: rest, issued⟩ ((listener.ticket, previous) :: due) =
      let after : Registry α := ⟨content, heard ++ listener.afterCall.toList ++ rest, issued⟩
      (.call listener.ticket content previous :: (after.deliver due).1, (after.deliver due).2) := by
  have found : listener? ⟨content, heard ++ listener :: rest, issued⟩ listener.ticket = some listener :=
    listener?_of_mem distinct (by simp)
  cases called : listener.called with
  | true =>
    have stays : listener.afterCall = some listener := by simp [Listener.afterCall, called]
    simp [deliver_of_called found called, stays]
  | false =>
    have nothing : listener.reaction = none := by simpa [Listener.pending?, called] using silent
    rw [deliver_of_reaction_eq_none found called nothing, afterFirstCall_eq distinct called]

theorem deliver_of_pending?_eq_some (distinct : (tickets (heard ++ listener :: rest)).Nodup)
    (again : ∀ listener ∈ heard, listener.called = true) {next : Option α}
    (swaps : listener.pending? = some next) :
    deliver ⟨content, heard ++ listener :: rest, issued⟩ ((listener.ticket, previous) :: due) =
      let kept := heard ++ listener.afterCall.toList
      let later := deliver ⟨next, kept ++ rest, issued⟩ ((tickets rest).map (·, content) ++ due)
      (.call listener.ticket content previous :: .swap next content ::
        ((tickets kept).map (.call · next content) ++ later.1), later.2) := by
  have found : listener? ⟨content, heard ++ listener :: rest, issued⟩ listener.ticket = some listener :=
    listener?_of_mem distinct (by simp)
  obtain ⟨first, reacts⟩ : listener.called = false ∧ listener.reaction = some next := by
    simpa [Listener.pending?] using swaps
  rw [deliver_of_reaction_eq_some found first reacts, afterReaction, announcement_eq,
    afterFirstCall_eq distinct first]
  simp only [deliver_announcement (distinct_afterCall distinct) (called_afterCall again listener)]

/-- What calls in the order of the listeners bring about, with calls that are due afterwards. -/
theorem deliver_eq_cascade (distinct : (tickets (heard ++ rest)).Nodup)
    (again : ∀ listener ∈ heard, listener.called = true) :
    deliver ⟨content, heard ++ rest, issued⟩ ((tickets rest).map (·, previous) ++ due) =
      (cascade heard content previous due rest,
        ⟨(pending rest).getLastD content, heard ++ rest.filterMap Listener.afterCall, issued⟩) := by
  induction rest generalizing heard content previous due with
  | nil =>
    rw [List.append_nil] at distinct ⊢
    have repeated := @deliver_of_forall_called _ ⟨content, heard, issued⟩ due distinct again
    simpa [pending, cascade] using repeated
  | cons listener rest ih =>
    have distinctAfter := distinct_afterCall distinct
    have againAfter := called_afterCall again listener
    have listeners : (listener :: rest).filterMap Listener.afterCall =
        listener.afterCall.toList ++ rest.filterMap Listener.afterCall := by
      cases stays : listener.afterCall <;> simp [stays]
    rw [tickets_cons, List.map_cons, List.cons_append, cascade, listeners, ← List.append_assoc]
    cases swaps : listener.pending? with
    | none =>
      rw [deliver_of_pending?_eq_none distinct swaps, pending, List.filterMap_cons_none swaps]
      simp only [ih distinctAfter againAfter, pending]
    | some next =>
      rw [deliver_of_pending?_eq_some distinct again swaps, pending, List.filterMap_cons_some swaps]
      simp only [ih distinctAfter againAfter, pending, List.getLastD_cons]

theorem set_eq_cascade (distinct : (tickets registry.listeners).Nodup) (next : Option α) :
    registry.set next =
      (.swap next registry.content :: cascade [] next registry.content [] registry.listeners,
        ⟨(pending registry.listeners).getLastD next,
          registry.listeners.filterMap Listener.afterCall, registry.issued⟩) := by
  have delivered := @deliver_eq_cascade _ registry.issued next registry.content [] [] registry.listeners
    distinct (by simp)
  rw [List.append_nil, List.nil_append] at delivered
  simp only [set, announcement_eq, delivered, List.nil_append]

/-- Tickets tell the listeners apart, and those given out later will do so too. -/
structure Ticketed (registry : Registry α) : Prop where
  distinct : (tickets registry.listeners).Nodup
  lt_issued : ∀ ticket ∈ tickets registry.listeners, ticket < registry.issued

theorem ticketed_ofContent (content : Option α) : (ofContent content).Ticketed :=
  ⟨List.nodup_nil, fun _ member => nomatch member⟩

theorem Ticketed.of_sublist {after : Registry α} (ticketed : registry.Ticketed)
    (kept : (tickets after.listeners).Sublist (tickets registry.listeners))
    (same : after.issued = registry.issued) : after.Ticketed where
  distinct := ticketed.distinct.sublist kept
  lt_issued := fun ticket member => same ▸ ticketed.lt_issued ticket (kept.subset member)

theorem Ticketed.subscribe (ticketed : registry.Ticketed) (once : Bool)
    (reaction : Option (Option α)) : (registry.subscribe once reaction).Ticketed where
  distinct := by
    have fresh : registry.issued ∉ tickets registry.listeners :=
      fun member => Nat.lt_irrefl _ (ticketed.lt_issued _ member)
    simp only [Registry.subscribe, tickets_append]
    exact ticketed.distinct.append (List.nodup_singleton _) (by simpa using fresh)
  lt_issued := by
    simp only [Registry.subscribe, tickets_append, List.forall_mem_append]
    refine ⟨fun ticket member => Nat.lt_succ_of_lt (ticketed.lt_issued ticket member), ?_⟩
    simp

theorem Ticketed.unsubscribe (ticketed : registry.Ticketed) (ticket : Nat) :
    (registry.unsubscribe ticket).Ticketed :=
  ticketed.of_sublist (List.filter_sublist.map _) rfl

theorem Ticketed.set (ticketed : registry.Ticketed) (next : Option α) :
    (registry.set next).2.Ticketed := by
  rw [set_eq_cascade ticketed.distinct]
  exact ticketed.of_sublist (tickets_filterMap_afterCall_sublist _) rfl

end Registry

end Typeface
