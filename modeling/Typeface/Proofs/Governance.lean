import Typeface.Proofs.Numerals

/-! What each setting depends on. Reading an environment cannot fail, though the defaults are texts that go through
the same checks: each of them passes its own. Of the environment a setting depends on one variable, and of
that on its text in lower case without the blanks around it; where this denotes nothing, the setting is
what it is without the variable. -/

set_option autoImplicit false

namespace Typeface.Settings

def foldedText (fold : List Char → List Char) (text : String) : List Char :=
  fold (Text.trim text.toList)

/-- What a variable's text denotes, where the default is a text too: it is tried if there is nothing else to
try, and also if what was tried denotes nothing. This fails if the default denotes nothing either. -/
def attempt? {α : Type} (fold : List Char → List Char) (read? : List Char → Option α) (fallback : String)
    (text : Option String) : Option α :=
  let tried := match text.map (foldedText fold) with
    | none | some [] => fallback.toList
    | some text => text
  (read? tried).or (read? fallback.toList)

def ofEnvironment? (fold : List Char → List Char) (environment : Environment) : Option Settings := do
  let threshold ← attempt? fold (named? Threshold.all Threshold.name) "warn"
    (environment thresholdVariable)
  let mode ← attempt? fold (named? Mode.all Mode.name) "lenient" (environment modeVariable)
  let logCapacity ← attempt? fold capacity? "500" (environment logCapacityVariable)
  return ⟨threshold, mode, logCapacity⟩

section

variable {α : Type}

/-- The setting is governed by one variable, whatever stands in the others: a text of it that denotes a value sets
the setting to that value, and any other text leaves it as it is without the variable. -/
structure GovernedBy (fold : List Char → List Char) (setting : Settings → α) (name : String)
    (Denotes : List Char → α → Prop) : Prop where
  own : ∀ left right : Environment,
    (left name).map (foldedText fold) = (right name).map (foldedText fold) →
    setting (ofEnvironment left) = setting (ofEnvironment right)
  denoted : ∀ (environment : Environment) (text : String) (value : α), environment name = some text →
    Denotes (foldedText fold text) value → setting (ofEnvironment environment) = value
  ignored : ∀ (environment without : Environment) (text : String), environment name = some text →
    (∀ value, ¬ Denotes (foldedText fold text) value) → without name = none →
    setting (ofEnvironment environment) = setting (ofEnvironment without)
  blank : ∀ text : String, (∀ character ∈ text.toList, Text.isBlank character = true) →
    ∀ value, ¬ Denotes (foldedText fold text) value
  unset : ∀ environment : Environment, environment name = none →
    setting (ofEnvironment environment) = setting default

structure Reads (read? : List Char → Option α) (Denotes : List Char → α → Prop)
    (fallbackText : String) (fallback : α) : Prop where
  denotes : ∀ text value, read? text = some value ↔ Denotes text value
  asciiOnly : Text.AsciiOnly read?
  empty : read? [] = none
  passes : read? fallbackText.toList = some fallback

variable {fold : List Char → List Char} {read? : List Char → Option α}
  {Denotes : List Char → α → Prop} {fallbackText : String} {fallback : α}

theorem foldedText_of_blank {text : String} (lowering : Text.IsLowering fold)
    (blank : ∀ character ∈ text.toList, Text.isBlank character = true) : foldedText fold text = [] := by
  rw [foldedText, Text.trim_of_blank blank, ← List.map_eq_nil_iff]
  exact lowering []

namespace Reads

theorem choose_eq (reads : Reads read? Denotes fallbackText fallback) (lowering : Text.IsLowering fold)
    (text : Option String) :
    choose read? fallback text = ((text.map (foldedText fold)).bind read?).getD fallback := by
  cases text with
  | none => rfl
  | some text =>
    have same : read? (foldedText fold text) = read? (plainText text) :=
      reads.asciiOnly.fold_eq lowering (Text.trim text.toList)
    rw [choose, Option.bind_some, Option.map_some, Option.bind_some, same]

theorem attempt?_eq (reads : Reads read? Denotes fallbackText fallback)
    (lowering : Text.IsLowering fold) (text : Option String) :
    attempt? fold read? fallbackText text = some (choose read? fallback text) := by
  rw [reads.choose_eq lowering]
  -- The default is tried first without a text, or with one that is empty, and second after any other.
  cases text with
  | none => simp [attempt?, reads.passes]
  | some text =>
    cases folded : foldedText fold text with
    | nil => simp [attempt?, folded, reads.empty, reads.passes]
    | cons character rest =>
      cases found : read? (character :: rest) with
      | none => simp [attempt?, folded, found, reads.passes]
      | some value => simp [attempt?, folded, found]

theorem governedBy {setting : Settings → α} {name : String}
    (reads : Reads read? Denotes fallbackText (setting default)) (lowering : Text.IsLowering fold)
    (chosen : ∀ environment, setting (ofEnvironment environment) =
      choose read? (setting default) (environment name)) :
    GovernedBy fold setting name Denotes := by
  simp only [reads.choose_eq lowering] at chosen
  constructor
  case own =>
    intro left right same
    rw [chosen, chosen, same]
  case denoted =>
    intro environment text value assigned denoted
    rw [chosen, assigned, Option.map_some, Option.bind_some, (reads.denotes _ value).mpr denoted,
      Option.getD_some]
  case ignored =>
    intro environment without text assigned nothing missing
    have unread : read? (foldedText fold text) = none := by
      rw [Option.eq_none_iff_forall_ne_some]
      intro value read
      exact nothing value ((reads.denotes _ value).mp read)
    rw [chosen, chosen, assigned, missing, Option.map_some, Option.bind_some, unread]
    rfl
  case blank =>
    intro text blank value denoted
    rw [foldedText_of_blank lowering blank, ← reads.denotes, reads.empty] at denoted
    cases denoted
  case unset =>
    intro environment missing
    rw [chosen, missing]
    rfl

end Reads

section

variable {options : List α} {name : α → String}

theorem named?_eq_some {text : List Char} {option : α} (found : named? options name text = some option) :
    option ∈ options ∧ (name option).toList = text := by
  unfold named? at found
  have same := List.find?_some found
  exact ⟨List.mem_of_find?_eq_some found, of_decide_eq_true same⟩

theorem reads_named? (listed : ∀ option, option ∈ options)
    (distinct : ∀ left ∈ options, ∀ right ∈ options, name left = name right → left = right)
    (ascii : ∀ option ∈ options, (name option).toList ≠ [] ∧ Text.IsAscii (name option).toList)
    (fallback : α) :
    Reads (named? options name) (fun text option => (name option).toList = text) (name fallback)
      fallback := by
  -- No other option of that name stands before it.
  have own (option : α) : named? options name (name option).toList = some option := by
    cases found : named? options name (name option).toList with
    | none =>
      unfold named? at found
      exact absurd (List.find?_eq_none.mp found option (listed option)) (by simp)
    | some other =>
      obtain ⟨member, same⟩ := named?_eq_some found
      rw [distinct other member option (listed option) (String.toList_injective same)]
  constructor
  case denotes =>
    intro text option
    constructor
    · exact fun found => (named?_eq_some found).2
    · rintro rfl
      exact own option
  case asciiOnly =>
    intro text option found
    obtain ⟨member, rfl⟩ := named?_eq_some found
    exact (ascii option member).2
  case empty =>
    rw [Option.eq_none_iff_forall_ne_some]
    intro option found
    obtain ⟨member, same⟩ := named?_eq_some found
    exact (ascii option member).1 same
  case passes => exact own fallback

end

end

theorem reads_threshold :
    Reads (named? Threshold.all Threshold.name) (fun text threshold => threshold.name.toList = text)
      "warn" default.threshold :=
  reads_named? Threshold.mem_all (by decide) (by decide) default.threshold

theorem reads_mode :
    Reads (named? Mode.all Mode.name) (fun text mode => mode.name.toList = text)
      "lenient" default.mode :=
  reads_named? Mode.mem_all (by decide) (by decide) default.mode

theorem reads_capacity? : Reads capacity? DenotesCapacity "500" default.logCapacity := by
  constructor
  case denotes => exact capacity?_eq_some_iff
  case asciiOnly =>
    intro text count read
    obtain ⟨integer, read, _⟩ := Option.bind_eq_some_iff.mp read
    obtain ⟨number, read, _⟩ := Option.bind_eq_some_iff.mp read
    exact Numeral.asciiOnly_read? text number read
  case empty => rfl
  case passes => decide +kernel

theorem ofEnvironment?_eq {fold : List Char → List Char} (lowering : Text.IsLowering fold)
    (environment : Environment) : ofEnvironment? fold environment = some (ofEnvironment environment) := by
  rw [ofEnvironment?, reads_threshold.attempt?_eq lowering, reads_mode.attempt?_eq lowering,
    reads_capacity?.attempt?_eq lowering]
  rfl

/-- Settings can be read from every environment, each is one that there is, and each is governed by a variable of
its own, however letters outside ASCII are brought to lower case. -/
theorem ofEnvironment_governed {fold : List Char → List Char} (lowering : Text.IsLowering fold) :
    (∀ environment : Environment,
        ofEnvironment? fold environment = some (ofEnvironment environment) ∧
        (ofEnvironment environment).threshold.name ∈ ["debug", "info", "warn", "error", "silent"] ∧
        (ofEnvironment environment).mode.name ∈ ["strict", "lenient"] ∧
        0 < (ofEnvironment environment).logCapacity) ∧
      GovernedBy fold threshold thresholdVariable (fun text threshold => threshold.name.toList = text) ∧
      GovernedBy fold mode modeVariable (fun text mode => mode.name.toList = text) ∧
      GovernedBy fold logCapacity logCapacityVariable DenotesCapacity := by
  have thresholdNames : ∀ threshold ∈ Threshold.all,
      threshold.name ∈ ["debug", "info", "warn", "error", "silent"] := by decide
  have modeNames : ∀ mode ∈ Mode.all, mode.name ∈ ["strict", "lenient"] := by decide
  refine ⟨fun environment => ⟨?_, ?_, ?_, ?_⟩, ?_, ?_, ?_⟩
  · exact ofEnvironment?_eq lowering environment
  · exact thresholdNames _ (Threshold.mem_all _)
  · exact modeNames _ (Mode.mem_all _)
  · exact logCapacity_ofEnvironment_pos environment
  · exact reads_threshold.governedBy lowering fun _ => rfl
  · exact reads_mode.governedBy lowering fun _ => rfl
  · exact reads_capacity?.governedBy lowering fun _ => rfl

theorem ofEnvironment_governed_mixed :
    Text.IsLowering Text.lower ∧
      (ofEnvironment (.assign (fun _ => none) thresholdVariable (some " DEBUG\n"))).threshold =
        .atLeast .debug ∧
      (ofEnvironment (.assign (fun _ => none) modeVariable (some "\u3000"))).mode = .lenient ∧
      (ofEnvironment (.assign (fun _ => none) logCapacityVariable (some "1e999"))).logCapacity = 500 := by
  have lowering := Text.isLowering_lower
  obtain ⟨_, threshold, mode, capacity⟩ := ofEnvironment_governed lowering
  have infinite : Numeral.read? (foldedText Text.lower "1e999") = some (.infinite false) := by
    decide +kernel
  have uncountable : ∀ count, ¬ DenotesCapacity (foldedText Text.lower "1e999") count := by
    rintro count ⟨number, read, integral, _⟩
    rw [infinite, Option.some.injEq] at read
    rw [← read] at integral
    cases integral
  refine ⟨lowering, threshold.denoted _ _ _ rfl (by decide +kernel), ?_, ?_⟩
  · have nothing := mode.blank "\u3000" (by rw [← List.all_eq_true]; rfl)
    exact mode.ignored _ (fun _ => none) _ rfl nothing rfl
  · exact capacity.ignored _ (fun _ => none) _ rfl uncountable rfl

end Typeface.Settings
