import Typeface.Registry

/-! Announcements call by call. What is due next is passed over, or called once more, or called for the
first time, and then the swap that the listener makes comes before all else that is due. What is stored
and what listeners hold is all that calls and swaps ever show. -/

set_option autoImplicit false

namespace Typeface

def Occurrence.values {α : Type} : Occurrence α → List α
  | .swap next previous | .call _ next previous => next.toList ++ previous.toList

namespace Registry

variable {α : Type} {registry : Registry α} {ticket : Nat} {previous : Option α}
  {due : List (Nat × Option α)} {listener : Listener α}

theorem deliver_of_none (gone : registry.listener? ticket = none) :
    registry.deliver ((ticket, previous) :: due) = registry.deliver due := by
  rw [deliver]
  split
  · rfl
  · next found => rw [gone] at found; cases found

theorem deliver_of_called (found : registry.listener? ticket = some listener)
    (called : listener.called = true) :
    registry.deliver ((ticket, previous) :: due) =
      (.call ticket registry.content previous :: (registry.deliver due).1,
        (registry.deliver due).2) := by
  rw [deliver]
  split
  · next gone => rw [gone] at found; cases found
  · next other same =>
    obtain rfl : listener = other := Option.some.inj (found.symm.trans same)
    simp only [called, dite_true]

theorem deliver_of_reaction_eq_none (found : registry.listener? ticket = some listener)
    (first : listener.called = false) (silent : listener.reaction = none) :
    registry.deliver ((ticket, previous) :: due) =
      (.call ticket registry.content previous :: ((registry.afterFirstCall ticket).deliver due).1,
        ((registry.afterFirstCall ticket).deliver due).2) := by
  rw [deliver]
  split
  · next gone => rw [gone] at found; cases found
  · next other same =>
    obtain rfl : listener = other := Option.some.inj (found.symm.trans same)
    simp only [first, Bool.false_eq_true, dite_false]
    split
    · rfl
    · next reacts => rw [silent] at reacts; cases reacts

def afterReaction (registry : Registry α) (ticket : Nat) (next : Option α) : Registry α :=
  { registry.afterFirstCall ticket with content := next }

theorem deliver_of_reaction_eq_some {next : Option α}
    (found : registry.listener? ticket = some listener) (first : listener.called = false)
    (reacts : listener.reaction = some next) :
    registry.deliver ((ticket, previous) :: due) =
      let nested := (registry.afterReaction ticket next).deliver
        ((registry.afterFirstCall ticket).announcement registry.content ++ due)
      (.call ticket registry.content previous :: .swap next registry.content :: nested.1, nested.2) := by
  rw [deliver]
  split
  · next gone => rw [gone] at found; cases found
  · next other same =>
    obtain rfl : listener = other := Option.some.inj (found.symm.trans same)
    simp only [first, Bool.false_eq_true, dite_false]
    split
    · next silent => rw [reacts] at silent; cases silent
    · next other same =>
      obtain rfl : next = other := Option.some.inj (reacts.symm.trans same)
      rfl

theorem reaction_of_mem_afterFirstCall (member : listener ∈ (registry.afterFirstCall ticket).listeners) :
    ∃ origin ∈ registry.listeners, origin.reaction = listener.reaction := by
  obtain ⟨origin, originMember, kept⟩ := List.mem_filterMap.mp member
  refine ⟨origin, originMember, ?_⟩
  split at kept
  · split at kept
    · cases kept
    · cases kept
      rfl
  · cases kept
    rfl

variable {property : α → Prop}

/-- What is stored, and what listeners may still swap in, has the property. -/
structure Upholds (property : α → Prop) (registry : Registry α) : Prop where
  content : ∀ value ∈ registry.content, property value
  reactions : ∀ listener ∈ registry.listeners, ∀ next ∈ listener.reaction, ∀ value ∈ next,
    property value

theorem upholds_afterFirstCall (upholds : registry.Upholds property) (ticket : Nat) :
    (registry.afterFirstCall ticket).Upholds property where
  content := upholds.content
  reactions := by
    intro listener member
    obtain ⟨origin, originMember, same⟩ := reaction_of_mem_afterFirstCall member
    rw [← same]
    exact upholds.reactions origin originMember

theorem announcement_upholds (registry : Registry α) (replaced : ∀ value ∈ previous, property value) :
    ∀ entry ∈ registry.announcement previous, ∀ value ∈ entry.2, property value := by
  intro entry member
  obtain ⟨listener, _, rfl⟩ := List.mem_map.mp member
  exact replaced

theorem forall_mem_values {next : Option α} (shown : ∀ value ∈ next, property value)
    (replaced : ∀ value ∈ previous, property value) :
    ∀ value ∈ next.toList ++ previous.toList, property value := by
  intro value member
  rcases List.mem_append.mp member with member | member
  · exact shown value (Option.mem_toList.mp member)
  · exact replaced value (Option.mem_toList.mp member)

theorem upholds_deliver (upholds : registry.Upholds property)
    (pending : ∀ entry ∈ due, ∀ value ∈ entry.2, property value) :
    (registry.deliver due).2.Upholds property ∧
      ∀ occurrence ∈ (registry.deliver due).1, ∀ value ∈ occurrence.values, property value := by
  induction registry, due using Registry.deliver.induct with
  | case1 registry =>
    rw [deliver]
    exact ⟨upholds, by simp⟩
  | case2 registry ticket previous due gone ih =>
    rw [deliver_of_none gone]
    exact ih upholds (List.forall_mem_cons.mp pending).2
  | case3 registry ticket previous due listener found called later final _ ih =>
    obtain ⟨replaced, pending⟩ := List.forall_mem_cons.mp pending
    obtain ⟨kept, shown⟩ := ih upholds pending
    rw [deliver_of_called found called]
    exact ⟨kept, List.forall_mem_cons.mpr ⟨forall_mem_values upholds.content replaced, shown⟩⟩
  | case4 registry ticket previous due listener found first heard silent later final _ ih =>
    obtain ⟨replaced, pending⟩ := List.forall_mem_cons.mp pending
    obtain ⟨kept, shown⟩ := ih (upholds_afterFirstCall upholds ticket) pending
    rw [deliver_of_reaction_eq_none found (by simpa using first) silent]
    exact ⟨kept, List.forall_mem_cons.mpr ⟨forall_mem_values upholds.content replaced, shown⟩⟩
  | case5 registry ticket previous due listener found first heard next reacts swapped later final _ ih =>
    obtain ⟨replaced, pending⟩ := List.forall_mem_cons.mp pending
    have given : ∀ value ∈ next, property value :=
      upholds.reactions listener (List.mem_of_find?_eq_some found) next reacts
    obtain ⟨kept, shown⟩ := ih ⟨given, (upholds_afterFirstCall upholds ticket).reactions⟩
      (List.forall_mem_append.mpr ⟨announcement_upholds _ upholds.content, pending⟩)
    rw [deliver_of_reaction_eq_some found (by simpa using first) reacts]
    exact ⟨kept, List.forall_mem_cons.mpr ⟨forall_mem_values upholds.content replaced,
      List.forall_mem_cons.mpr ⟨forall_mem_values given upholds.content, shown⟩⟩⟩

theorem upholds_set (upholds : registry.Upholds property) {next : Option α}
    (given : ∀ value ∈ next, property value) :
    (registry.set next).2.Upholds property ∧
      ∀ occurrence ∈ (registry.set next).1, ∀ value ∈ occurrence.values, property value := by
  have swapped : { registry with content := next }.Upholds property := ⟨given, upholds.reactions⟩
  obtain ⟨kept, shown⟩ :=
    upholds_deliver swapped (registry.announcement_upholds upholds.content)
  exact ⟨kept, List.forall_mem_cons.mpr ⟨forall_mem_values given upholds.content, shown⟩⟩

theorem upholds_subscribe (upholds : registry.Upholds property) (once : Bool)
    {reaction : Option (Option α)} (given : ∀ next ∈ reaction, ∀ value ∈ next, property value) :
    (registry.subscribe once reaction).Upholds property :=
  ⟨upholds.content, List.forall_mem_append.mpr
    ⟨upholds.reactions, List.forall_mem_singleton.mpr given⟩⟩

theorem upholds_unsubscribe (upholds : registry.Upholds property) (ticket : Nat) :
    (registry.unsubscribe ticket).Upholds property :=
  ⟨upholds.content, fun listener member =>
    upholds.reactions listener (List.mem_filter.mp member).1⟩

theorem upholds_ofContent {content : Option α} (given : ∀ value ∈ content, property value) :
    (ofContent content).Upholds property :=
  ⟨given, fun _ member => nomatch member⟩

end Registry

end Typeface
