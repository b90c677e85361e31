/-! A slot with listeners. Every swap of the content is announced to the listeners in the order of
their subscription, also a swap that changes nothing. A listener may leave at its first call, and
may then swap the content itself; that swap is announced to all at once, before the announcement in
progress goes on. Each call shows the content as it is at that moment, next to the content that the
announced swap replaced. -/

set_option autoImplicit false

namespace Typeface

structure Listener (α : Type) where
  ticket : Nat
  -- The listener leaves at its first call.
  once : Bool
  -- What the listener swaps in at its first call, if anything; this may be the empty content.
  reaction : Option (Option α)
  called : Bool
  deriving DecidableEq, Repr

structure Registry (α : Type) where
  content : Option α
  -- In the order of subscription.
  listeners : List (Listener α)
  -- How many tickets have been given out; the next subscription gets this number.
  issued : Nat
  deriving DecidableEq, Repr

inductive Occurrence (α : Type) where
  | swap (next previous : Option α)
  | call (ticket : Nat) (next previous : Option α)
  deriving DecidableEq, Repr

namespace Registry

variable {α : Type}

def ofContent (content : Option α) : Registry α := ⟨content, [], 0⟩

def subscribe (registry : Registry α) (once : Bool) (reaction : Option (Option α)) : Registry α :=
  { registry with
    listeners := registry.listeners ++ [⟨registry.issued, once, reaction, false⟩]
    issued := registry.issued + 1 }

def unsubscribe (registry : Registry α) (ticket : Nat) : Registry α :=
  { registry with listeners := registry.listeners.filter (·.ticket ≠ ticket) }

def listener? (registry : Registry α) (ticket : Nat) : Option (Listener α) :=
  registry.listeners.find? (·.ticket = ticket)

def afterFirstCall (registry : Registry α) (ticket : Nat) : Registry α :=
  { registry with
    listeners := registry.listeners.filterMap fun listener =>
      if listener.ticket = ticket then
        if listener.once then none else some { listener with called := true }
      else some listener }

def uncalled (registry : Registry α) : Nat := registry.listeners.countP fun listener => !listener.called

theorem uncalled_afterFirstCall_lt {registry : Registry α} {ticket : Nat} {listener : Listener α}
    (found : registry.listener? ticket = some listener) (first : listener.called = false) :
    (registry.afterFirstCall ticket).uncalled < registry.uncalled := by
  obtain ⟨content, listeners, issued⟩ := registry
  simp only [listener?] at found
  simp only [uncalled, afterFirstCall]
  have bound (rest : List (Listener α)) :
      (rest.filterMap fun listener =>
        if listener.ticket = ticket then
          if listener.once then none else some { listener with called := true }
        else some listener).countP (fun listener => !listener.called) ≤
      rest.countP fun listener => !listener.called := by
    induction rest with
    | nil => simp
    | cons head rest ih => grind
  induction listeners with
  | nil => simp at found
  | cons head rest ih =>
    have := bound rest
    by_cases same : head.ticket = ticket <;> grind

@[simp] theorem content_subscribe (registry : Registry α) (once : Bool)
    (reaction : Option (Option α)) : (registry.subscribe once reaction).content = registry.content :=
  rfl

@[simp] theorem content_unsubscribe (registry : Registry α) (ticket : Nat) :
    (registry.unsubscribe ticket).content = registry.content := rfl

@[simp] theorem content_afterFirstCall (registry : Registry α) (ticket : Nat) :
    (registry.afterFirstCall ticket).content = registry.content := rfl

def announcement (registry : Registry α) (previous : Option α) : List (Nat × Option α) :=
  registry.listeners.map fun listener => (listener.ticket, previous)

/-- Makes the calls that are due, each to the listener of a ticket about the swap that replaced the
given content. A listener that has left is passed over. The swap that a listener makes puts its own
announcement in front of what is due. -/
def deliver (registry : Registry α) : List (Nat × Option α) → List (Occurrence α) × Registry α
  | [] => ([], registry)
  | (ticket, previous) :: due =>
    match found : registry.listener? ticket with
    | none => registry.deliver due
    | some listener =>
      let call := Occurrence.call ticket registry.content previous
      if first : listener.called then
        let (later, final) := registry.deliver due
        (call :: later, final)
      else
        let heard := registry.afterFirstCall ticket
        match listener.reaction with
        | none =>
          let (later, final) := heard.deliver due
          (call :: later, final)
        | some next =>
          -- The nested announcement comes first; what is still due keeps its own previous content
          -- but will show the content of the nested swap.
          let swapped := { heard with content := next }
          let (later, final) := swapped.deliver (heard.announcement heard.content ++ due)
          (call :: .swap next heard.content :: later, final)
termination_by due => (registry.uncalled, due.length)
decreasing_by
  · exact Prod.Lex.right _ (Nat.lt_succ_self _)
  · exact Prod.Lex.right _ (Nat.lt_succ_self _)
  · exact Prod.Lex.left _ _ (uncalled_afterFirstCall_lt found (by simpa using first))
  · exact Prod.Lex.left _ _ (uncalled_afterFirstCall_lt found (by simpa using first))

/-- Swaps the content and announces it. The result is what occurred, in order, and the registry
after it; what the swap replaced is the content before it. -/
def set (registry : Registry α) (next : Option α) : List (Occurrence α) × Registry α :=
  let swapped := { registry with content := next }
  let (later, final) := swapped.deliver (registry.announcement registry.content)
  (.swap next registry.content :: later, final)

theorem set_of_listeners_eq_nil {registry : Registry α} (silent : registry.listeners = [])
    (next : Option α) :
    registry.set next = ([.swap next registry.content], { registry with content := next }) := by
  simp [set, announcement, silent, deliver]

end Registry

end Typeface
