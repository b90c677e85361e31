import Typeface.Text

/-! Texts without the blanks at their ends. Trimming takes away blanks only, takes away all that stand at
either end, and leaves those inside; there is one such part of a text, so this tells what trimming gives. -/

set_option autoImplicit false

namespace Typeface.Text

/-- The bare text is what a text has between the blanks at its ends. -/
structure Strips (text bare : List Char) : Prop where
  within : ∃ before after, text = before ++ bare ++ after ∧
    ∀ character ∈ before ++ after, isBlank character = true
  first : ∀ character, bare.head? = some character → isBlank character = false
  last : ∀ character, bare.getLast? = some character → isBlank character = false

section

variable {text bare blanks rest : List Char}

theorem dropWhile_isBlank_append (blank : ∀ character ∈ blanks, isBlank character = true)
    (first : ∀ character, rest.head? = some character → isBlank character = false) :
    (blanks ++ rest).dropWhile isBlank = rest := by
  rw [List.dropWhile_append_of_pos blank]
  cases rest with
  | nil => rfl
  | cons character later => simp [first character rfl]

theorem isBlank_of_head?_dropWhile {character : Char}
    (first : (text.dropWhile isBlank).head? = some character) : isBlank character = false := by
  have stops := List.head?_dropWhile_not isBlank text
  rw [first] at stops
  exact stops

theorem isBlank_of_mem_takeWhile {character : Char} (member : character ∈ text.takeWhile isBlank) :
    isBlank character = true := by
  have all := List.all_takeWhile (p := isBlank) (l := text)
  exact List.all_eq_true.mp all character member

theorem trim_of_blank (blank : ∀ character ∈ text, isBlank character = true) : trim text = [] := by
  have none : (text ++ []).dropWhile isBlank = [] := dropWhile_isBlank_append blank (by simp)
  rw [List.append_nil] at none
  rw [trim, none]
  rfl

theorem Strips.trim_eq (strips : Strips text bare) : trim text = bare := by
  obtain ⟨⟨before, after, rfl, blank⟩, first, last⟩ := strips
  rw [List.forall_mem_append] at blank
  obtain ⟨ahead, behind⟩ := blank
  cases bare with
  | nil =>
    apply trim_of_blank
    rw [List.append_nil, List.forall_mem_append]
    exact ⟨ahead, behind⟩
  | cons head inner =>
    have front : (before ++ (head :: inner) ++ after).dropWhile isBlank = head :: inner ++ after := by
      rw [List.append_assoc]
      exact dropWhile_isBlank_append ahead first
    have back : (after.reverse ++ (head :: inner).reverse).dropWhile isBlank =
        (head :: inner).reverse := by
      apply dropWhile_isBlank_append
      · simpa using behind
      · rwa [List.head?_reverse]
    rw [trim, front, List.reverse_append, back, List.reverse_reverse]

theorem strips_trim (text : List Char) : Strips text (trim text) := by
  -- The second pass runs over what the first one leaves, from its end.
  have left := List.takeWhile_append_dropWhile (p := isBlank) (l := text)
  have right : trim text ++ ((text.dropWhile isBlank).reverse.takeWhile isBlank).reverse =
      text.dropWhile isBlank := by
    rw [trim, ← List.reverse_append, List.takeWhile_append_dropWhile, List.reverse_reverse]
  constructor
  · refine ⟨text.takeWhile isBlank,
      ((text.dropWhile isBlank).reverse.takeWhile isBlank).reverse, ?_, ?_⟩
    · rw [List.append_assoc, right, left]
    · rw [List.forall_mem_append]
      refine ⟨fun _ => isBlank_of_mem_takeWhile, fun _ member => ?_⟩
      exact isBlank_of_mem_takeWhile (List.mem_reverse.mp member)
  · intro character found
    have first : (text.dropWhile isBlank).head? = some character := by
      rw [← right, List.head?_append, found, Option.some_or]
    exact isBlank_of_head?_dropWhile first
  · intro character found
    rw [trim, List.getLast?_reverse] at found
    exact isBlank_of_head?_dropWhile found

theorem trim_eq_nil_iff : trim text = [] ↔ ∀ character ∈ text, isBlank character = true := by
  constructor
  · intro none
    obtain ⟨before, after, split, blank⟩ := (strips_trim text).within
    rw [none, List.append_nil] at split
    rwa [split]
  · exact trim_of_blank

end

end Typeface.Text
