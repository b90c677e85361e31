import Mathlib.Order.Lattice

/-! The first of the least elements of a list. A search that keeps its choice until something strictly
better comes finds this element, and it does not matter whether the list is searched in one go or part
by part with a search among the findings. -/

set_option autoImplicit false

namespace Typeface

variable {α β γ : Type} [LinearOrder β] {key : α → β} {list : List α} {winner : α}

/-- The element has the least key, and no element before it has the same. -/
def IsForemost (key : α → β) (list : List α) (winner : α) : Prop :=
  ∃ before after, list = before ++ winner :: after ∧
    (∀ rival ∈ before, key winner < key rival) ∧ ∀ rival ∈ after, key winner ≤ key rival

namespace IsForemost

theorem mem (foremost : IsForemost key list winner) : winner ∈ list := by
  obtain ⟨before, after, rfl, _, _⟩ := foremost
  simp

theorem le (foremost : IsForemost key list winner) {rival : α} (member : rival ∈ list) :
    key winner ≤ key rival := by
  obtain ⟨before, after, rfl, earlier, later⟩ := foremost
  rcases List.mem_append.mp member with member | member
  · exact le_of_lt (earlier rival member)
  · rcases List.mem_cons.mp member with rfl | member
    · exact le_refl _
    · exact later rival member

theorem unique {other : α} (first : IsForemost key list winner) (second : IsForemost key list other) :
    winner = other := by
  have least : key winner = key other := le_antisymm (first.le second.mem) (second.le first.mem)
  obtain ⟨before, after, rfl, earlier, _⟩ := first
  obtain ⟨before', after', same, earlier', _⟩ := second
  rcases List.append_eq_append_iff.mp same with ⟨middle, rfl, rest⟩ | ⟨middle, rfl, rest⟩
  · cases middle with
    | nil => exact (List.cons.inj rest).1
    | cons head tail =>
      -- The first winner would stand before the second one.
      have : winner = head := by simpa using (List.cons.inj rest).1
      exact absurd (earlier' winner (by simp [this])) (by simp [least])
  · cases middle with
    | nil => exact (List.cons.inj rest).1.symm
    | cons head tail =>
      have : other = head := by simpa using (List.cons.inj rest).1
      exact absurd (earlier other (by simp [this])) (by simp [least])

theorem cons_of_le {head : α} (least : ∀ rival ∈ list, key head ≤ key rival) :
    IsForemost key (head :: list) head :=
  ⟨[], list, rfl, by simp, least⟩

theorem cons_of_lt {head : α} (foremost : IsForemost key list winner)
    (better : key winner < key head) : IsForemost key (head :: list) winner := by
  obtain ⟨before, after, rfl, earlier, later⟩ := foremost
  refine ⟨head :: before, after, rfl, ?_, later⟩
  intro rival member
  rcases List.mem_cons.mp member with rfl | member
  · exact better
  · exact earlier rival member

theorem map {element : γ} {elements : List γ} (key : α → β) (origin : γ → α)
    (foremost : IsForemost (fun index => key (origin index)) elements element) :
    IsForemost key (elements.map origin) (origin element) := by
  obtain ⟨before, after, rfl, earlier, later⟩ := foremost
  refine ⟨before.map origin, after.map origin, by simp, ?_, ?_⟩
  · intro image member
    obtain ⟨rival, rivalMember, rfl⟩ := List.mem_map.mp member
    exact earlier rival rivalMember
  · intro image member
    obtain ⟨rival, rivalMember, rfl⟩ := List.mem_map.mp member
    exact later rival rivalMember

end IsForemost

theorem minOn?_eq_none_iff : list.minOn? key = none ↔ list = [] := by
  rw [← Option.not_isSome_iff_eq_none, List.isSome_minOn?_iff, not_not]

theorem isForemost_minOn? (found : list.minOn? key = some winner) : IsForemost key list winner := by
  induction list generalizing winner with
  | nil => simp at found
  | cons head rest ih =>
    rw [List.minOn?_cons, Option.some.injEq] at found
    cases later : rest.minOn? key with
    | none =>
      obtain rfl : rest = [] := minOn?_eq_none_iff.mp later
      obtain rfl : head = winner := by simpa using found
      exact .cons_of_le (by simp)
    | some best =>
      have foremost := ih later
      simp only [later, Option.elim_some, minOn] at found
      split at found
      next least =>
        subst found
        exact .cons_of_le fun rival member => least.trans (foremost.le member)
      next better =>
        subst found
        exact foremost.cons_of_lt (lt_of_not_ge better)

theorem minOn?_eq_some_iff_isForemost :
    list.minOn? key = some winner ↔ IsForemost key list winner := by
  refine ⟨isForemost_minOn?, fun foremost => ?_⟩
  cases found : list.minOn? key with
  | none => exact absurd foremost.mem (by simp [minOn?_eq_none_iff.mp found])
  | some other => rw [(isForemost_minOn? found).unique foremost]

theorem takeWhile_ne_append [DecidableEq α] {before after : List α} (fresh : winner ∉ before) :
    (before ++ winner :: after).takeWhile (· ≠ winner) = before := by
  have differs : ∀ rival ∈ before, decide (rival ≠ winner) = true := by
    intro rival member
    rw [decide_eq_true_eq]
    rintro rfl
    exact fresh member
  rw [List.takeWhile_append_of_pos differs]
  simp

theorem isForemost_iff_of_le [DecidableEq α] (member : winner ∈ list)
    (least : ∀ rival ∈ list, key winner ≤ key rival) :
    IsForemost key list winner ↔
      ∀ earlier ∈ list.takeWhile (· ≠ winner), key earlier ≠ key winner := by
  constructor
  · rintro ⟨before, after, rfl, better, _⟩ earlier earlierMember
    have fresh : winner ∉ before := fun again => lt_irrefl _ (better winner again)
    rw [takeWhile_ne_append fresh] at earlierMember
    exact (better earlier earlierMember).ne'
  · intro apart
    obtain ⟨before, after, rfl, fresh⟩ := List.eq_append_cons_of_mem member
    rw [takeWhile_ne_append fresh] at apart
    refine ⟨before, after, rfl, ?_, fun rival later => least rival (by simp [later])⟩
    intro rival earlier
    exact lt_of_le_of_ne (least rival (by simp [earlier])) (apart rival earlier).symm

theorem minOn?_map (key : α → β) (origin : γ → α) (elements : List γ) :
    (elements.map origin).minOn? key =
      (elements.minOn? fun index => key (origin index)).map origin := by
  cases found : elements.minOn? fun index => key (origin index) with
  | none => simp [minOn?_eq_none_iff.mp found]
  | some element =>
    rw [Option.map_some, minOn?_eq_some_iff_isForemost]
    exact (isForemost_minOn? found).map key origin

/-- The search part by part, with a search among the findings, is the search in one go. -/
theorem minOn?_filterMap_minOn? (key : α → β) (part : γ → List α) (parts : List γ) :
    (parts.filterMap fun index => (part index).minOn? key).minOn? key =
      (parts.flatMap part).minOn? key := by
  induction parts with
  | nil => rfl
  | cons first rest ih =>
    rw [List.flatMap_cons, List.minOn?_append, ← ih, List.filterMap_cons]
    cases (part first).minOn? key with
    | none => simp
    | some found =>
      simp only [List.minOn?_cons]
      cases (rest.filterMap fun index => (part index).minOn? key).minOn? key <;> simp

end Typeface
