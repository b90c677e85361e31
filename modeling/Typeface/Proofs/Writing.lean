import Mathlib.Data.List.DropRight
import Typeface.Proofs.Undisturbed

/-! What operations write to the log. An operation hands it some entries, all with the time of the
operation and under the settings in force when it starts, and does nothing else to it; one operation
forgets the entries. What is handed over is told here apart from what the log makes of it: it keeps the
newest of what it held and what it was handed, up to its capacity. -/

set_option autoImplicit false

namespace Typeface

section

variable {α : Type}

/-- To keep the last of a list before more is added loses nothing that would be kept after it. -/
theorem rtake_rtake_append (list more : List α) (count : Nat) :
    (list.rtake count ++ more).rtake count = (list ++ more).rtake count := by
  have within : list.length - count ≤ list.length := Nat.sub_le _ _
  unfold List.rtake
  rw [← List.drop_append_of_le_length within, List.drop_drop]
  congr 1
  rw [List.length_drop, List.length_append]
  omega

theorem rtake_of_length_le {list : List α} {count : Nat} (fits : list.length ≤ count) :
    list.rtake count = list := by
  rw [List.rtake, Nat.sub_eq_zero_of_le fits, List.drop_zero]

end

namespace Log

def writeAll (log : Log) (settings : Settings) (entries : List Entry) : Log :=
  entries.foldl (fun log entry => log.write settings entry) log

theorem writeAll_append (log : Log) (settings : Settings) (first rest : List Entry) :
    log.writeAll settings (first ++ rest) = (log.writeAll settings first).writeAll settings rest :=
  List.foldl_append

theorem toList_write (log : Log) (settings : Settings) (entry : Entry) :
    (log.write settings entry).entries.toList =
      (log.entries.toList ++ [entry]).rtake settings.logCapacity := by
  rw [toList_entries_write, List.rtake, List.length_append, Array.length_toList]
  rfl

theorem toList_writeAll (log : Log) (settings : Settings) {entries : List Entry}
    (nonempty : entries ≠ []) :
    (log.writeAll settings entries).entries.toList =
      (log.entries.toList ++ entries).rtake settings.logCapacity := by
  induction entries generalizing log with
  | nil => exact absurd rfl nonempty
  | cons entry rest ih =>
    rcases rest with _ | ⟨next, rest⟩
    · exact log.toList_write settings entry
    · have later := ih (log.write settings entry) (List.cons_ne_nil next rest)
      rw [toList_write, rtake_rtake_append, List.append_assoc] at later
      exact later

theorem toList_writeAll_of_fits {log : Log} {settings : Settings} {entries : List Entry}
    (fits : log.entries.size + entries.length ≤ settings.logCapacity) :
    (log.writeAll settings entries).entries.toList = log.entries.toList ++ entries := by
  by_cases nothing : entries = []
  · rw [nothing, List.append_nil]
    rfl
  · rw [log.toList_writeAll settings nothing]
    apply rtake_of_length_le
    rwa [List.length_append, Array.length_toList]

end Log

/-- The operations that set what the log depends on, or that clear it. -/
def Operation.isAdministrative : Operation → Bool
  | .assign _ _ | .resetSettings | .setClock _ | .clearLog => true
  | _ => false

namespace Entry

def resolution (now : Number) (kind : String) (identity : Identity) : Entry :=
  ⟨now, .debug, "StyleResolver", "resolve", some (Engine.identityMetadata kind identity)⟩

def installation (now : Number) (families : List Family) (identity : Identity) : Entry :=
  ⟨now, .info, "StyleResolver", "initializeDefault", some
    [("families", .array (families.map fun family => .string family.name)),
      ("weight", .number identity.style.weight.toNumber),
      ("slant", .string identity.style.slant.name)]⟩

def rejection (now : Number) (issues : List Issue) : Entry :=
  ⟨now, .warn, "Validation", "lenient fallback", some
    [("errors", Engine.issueTexts (issues.map Issue.text))]⟩

def badTable (now : Number) (fileName : String) (issues : List Issue) : Entry :=
  ⟨now, .warn, "StyleReader", "invalid OS/2 table", some
    [("fileName", .string fileName),
      ("errors", Engine.issueTexts (issues.map (Issue.textFrom "")))]⟩

def guess (now : Number) (fileName subfamily : String) : Entry :=
  ⟨now, .warn, "StyleReader", "weight from subfamily name", some
    [("fileName", .string fileName), ("subfamily", .string subfamily),
      ("weight", .number (weightOfName subfamily).toNumber)]⟩

def reading (now : Number) (fileName : String) (style : Style) : Entry :=
  ⟨now, .debug, "StyleReader", "read", some <| Metadata.timed
    [("fileName", .string fileName), ("weight", .number style.weight.toNumber),
      ("slant", .string style.slant.name)] now now⟩

end Entry

def Face.acceptedTable (face : Face) : Option StyleTable := face.decodeTable.toOption.join

namespace Engine

def tracing (now : Number) (kind : String) : Except Fault Identity → List Entry
  | .error _ => []
  | .ok identity => [.resolution now kind identity]

def familiesKind : Wanted Number → Wanted Bool → String
  | .byFontTable, .byFontTable => Request.Kind.fromFontTable.name
  | .given _, .given _ => Request.Kind.absolute.name
  | _, _ => "mixed"

def installing (now : Number) (families : List Family) : Except Fault Identity → List Entry
  | .error _ => []
  | .ok identity =>
    [.resolution now Request.Kind.fromFontTable.name identity,
      .installation now families identity]

def warning {α : Type} (engine : Engine) (decode : Decoder α) (input : Value) (mode : Option Mode) :
    List Entry :=
  match decode input, mode.getD engine.settings.mode with
  | .error issues, .lenient => [.rejection engine.clock issues]
  | _, _ => []

def tableWarning (now : Number) (fileName : String) (face : Face) : List Entry :=
  match face.decodeTable with
  | .ok _ => []
  | .error issues => [.badTable now fileName issues]

def guessing (now : Number) (fileName : String) (face : Face) : List Entry :=
  match face.acceptedTable.bind StyleTable.weightClass with
  | some _ => []
  | none => [.guess now fileName face.subfamily]

def reading (now : Number) (fileName : String) (face : Face) : List Entry :=
  tableWarning now fileName face ++ guessing now fileName face ++
    [.reading now fileName (face.declaredStyle face.acceptedTable)]

/-- The entries that an operation hands to the log, in order. -/
def written (engine : Engine) : Operation → List Entry
  | .write level component action metadata =>
    [⟨engine.clock, level, component, action, metadata⟩]
  | .writeTimed level component action start metadata =>
    [⟨engine.clock, level, component, action, some (metadata.timed engine.clock start)⟩]
  | .resolve request source id =>
    tracing engine.clock request.kind.name (engine.resolve request source id).1
  | .resolveFamilies families weight italic id =>
    tracing engine.clock (familiesKind weight italic)
      (engine.resolveFamilies families weight italic id).1
  | .resolveUntyped input mode source id =>
    engine.warning Request.decode input mode ++
      match (engine.parseRequest input mode).1 with
      | .error _ => []
      | .ok request => tracing engine.clock request.kind.name (engine.resolve request source id).1
  | .installDefault families id =>
    installing engine.clock families (engine.installDefault families id).1
  | .validate schema input _ mode => engine.warning schema.decode input mode
  | .parseRequest input mode => engine.warning Request.decode input mode
  | .parseStyle input mode => engine.warning Style.decode input mode
  | .readVariant fileName font =>
    match openFace fileName font with
    | .error _ => []
    | .ok face => reading engine.clock fileName face
  | _ => []

/-- Entries were handed to the log, and nothing else happened to it, the clock or the environment.
The settings are kept once an entry is written, and may be kept before. -/
structure Wrote (entries : List Entry) (before after : Engine) : Prop where
  log : after.log = before.log.writeAll before.settings entries
  clock : after.clock = before.clock
  environment : after.environment = before.environment
  kept : after.kept = some before.settings ∨ after.kept = before.kept ∧ entries = []

namespace Wrote

variable {first rest : List Entry} {before middle after : Engine}

theorem refl (engine : Engine) : Wrote [] engine engine := ⟨rfl, rfl, rfl, .inr ⟨rfl, rfl⟩⟩

theorem settings (wrote : Wrote first before after) : after.settings = before.settings := by
  unfold Engine.settings
  rcases wrote.kept with kept | ⟨kept, _⟩
  · rw [kept]
    rfl
  · rw [kept, wrote.environment]

theorem trans (left : Wrote first before middle) (right : Wrote rest middle after) :
    Wrote (first ++ rest) before after where
  log := by rw [right.log, left.log, left.settings, Log.writeAll_append]
  clock := right.clock.trans left.clock
  environment := right.environment.trans left.environment
  kept := by
    rcases right.kept with kept | ⟨kept, none⟩
    · rw [kept, left.settings]
      exact .inl rfl
    · rw [kept, none, List.append_nil]
      exact left.kept

/-- After entries were written the log holds the newest of what it held and of them, up to its capacity. -/
theorem toList_log (wrote : Wrote first before after) (nonempty : first ≠ []) :
    after.log.entries.toList =
      (before.log.entries.toList ++ first).rtake before.settings.logCapacity := by
  rw [wrote.log, Log.toList_writeAll _ _ nonempty]

end Wrote

theorem wrote_keepSettings (engine : Engine) : Wrote [] engine engine.keepSettings :=
  ⟨rfl, rfl, rfl, .inl rfl⟩

theorem wrote_setContent (engine : Engine) (id : RegistryId) (next : Option Identity) :
    Wrote [] engine (engine.setContent id next) := ⟨rfl, rfl, rfl, .inr ⟨rfl, rfl⟩⟩

theorem wrote_write {engine : Engine} {now : Number} (time : engine.clock = now) (level : Level)
    (component action : String) (metadata : Option Metadata) :
    Wrote [⟨now, level, component, action, metadata⟩] engine
      (engine.write level component action metadata) := by
  subst time
  exact ⟨rfl, rfl, rfl, .inl rfl⟩

theorem wrote_traced {engine : Engine} {now : Number} (time : engine.clock = now) (kind : String)
    (result : Except Fault Identity) :
    Wrote (tracing now kind result) engine (engine.traced kind result).2 := by
  cases result with
  | error fault => exact .refl engine
  | ok identity => exact wrote_write time _ _ _ _

theorem wrote_resolve {engine : Engine} {now : Number} (time : engine.clock = now)
    (request : Request) (source : Source) (id : RegistryId) :
    Wrote (tracing now request.kind.name (engine.resolve request source id).1) engine
      (engine.resolve request source id).2 := by
  rw [resolve_fst]
  exact wrote_traced time _ _

theorem wrote_resolveFamilies (engine : Engine) (families : List Family) (weight : Wanted Number)
    (italic : Wanted Bool) (id : RegistryId) :
    Wrote (tracing engine.clock (familiesKind weight italic)
      (engine.resolveFamilies families weight italic id).1) engine
      (engine.resolveFamilies families weight italic id).2 := by
  cases weight <;> cases italic
  case byFontTable.byFontTable => exact wrote_resolve rfl .fromFontTable _ id
  case given.given weight italic => exact wrote_resolve rfl (.absolute weight italic) _ id
  all_goals
    simp only [resolveFamilies, traced_fst]
    exact wrote_traced rfl _ _

theorem wrote_installDefault (engine : Engine) (families : List Family) (id : RegistryId) :
    Wrote (installing engine.clock families (engine.installDefault families id).1) engine
      (engine.installDefault families id).2 := by
  have resolved := wrote_resolve (Eq.refl engine.clock) .fromFontTable (.ofFamilies families) id
  unfold installDefault
  split
  next fault after failed =>
    rw [failed] at resolved
    exact resolved
  next identity after found =>
    rw [found] at resolved
    have swapped := resolved.trans (after.wrote_setContent id (some identity))
    have time : (after.setContent id (some identity)).clock = engine.clock := resolved.clock
    exact swapped.trans (wrote_write time _ _ _ _)

theorem wrote_validate {α : Type} (engine : Engine) (decode : Decoder α) (input : Value)
    (fallback : α) (mode : Option Mode) :
    Wrote (engine.warning decode input mode) engine
      (engine.validate decode input fallback mode).2 := by
  have given (engine : Engine) (mode : Mode) :
      Wrote (engine.warning decode input (some mode)) engine
        (engine.validate decode input fallback (some mode)).2 := by
    simp only [warning, validate, Option.getD_some]
    cases decode input with
    | ok data => exact .refl engine
    | error issues =>
      cases mode with
      | strict => exact .refl engine
      | lenient => exact wrote_write rfl _ _ _ _
  cases mode with
  | some mode => exact given engine mode
  | none => exact engine.wrote_keepSettings.trans (given engine.keepSettings engine.settings.mode)

theorem wrote_resolveUntyped (engine : Engine) (input : Value) (mode : Option Mode)
    (source : Source) (id : RegistryId) :
    Wrote (engine.written (.resolveUntyped input mode source id)) engine
      (engine.resolveUntyped input mode source id).2 := by
  have undisturbed := engine.undisturbed_parseRequest input mode
  have parsed : Wrote (engine.warning Request.decode input mode) engine
      (engine.parseRequest input mode).2 := engine.wrote_validate _ input _ mode
  simp only [written, resolveUntyped]
  generalize engine.parseRequest input mode = parsing at undisturbed parsed ⊢
  obtain ⟨fault | request, middle⟩ := parsing
  · rw [List.append_nil]
    exact parsed
  · have resolved := wrote_resolve parsed.clock request source id
    rw [resolve_fst, undisturbed.registry id] at resolved
    simp only [resolve_fst]
    exact parsed.trans resolved

theorem readTable_fst (engine : Engine) (fileName : String) (face : Face) :
    (engine.readTable fileName face).1 = face.acceptedTable := by
  unfold readTable Face.acceptedTable
  cases face.decodeTable <;> rfl

theorem wrote_readTable (engine : Engine) (fileName : String) (face : Face) :
    Wrote (tableWarning engine.clock fileName face) engine
      (engine.readTable fileName face).2 := by
  unfold tableWarning readTable
  cases face.decodeTable with
  | ok table => exact .refl engine
  | error issues => exact wrote_write rfl _ _ _ _

theorem wrote_writeGuess {engine : Engine} {now : Number} (time : engine.clock = now)
    (fileName : String) (face : Face) :
    Wrote (guessing now fileName face) engine
      (engine.writeGuess fileName face face.acceptedTable) := by
  unfold guessing writeGuess
  cases face.acceptedTable.bind StyleTable.weightClass with
  | some weight => exact .refl engine
  | none => exact wrote_write time _ _ _ _

theorem wrote_readVariant (engine : Engine) (fileName : String) (font : Except String Value) :
    Wrote (engine.written (.readVariant fileName font)) engine
      (engine.readVariant fileName font).2 := by
  simp only [written, readVariant]
  cases openFace fileName font with
  | error fault => exact .refl engine
  | ok face =>
    have table := engine.wrote_readTable fileName face
    have guess := table.trans (wrote_writeGuess table.clock fileName face)
    simp only [readTable_fst, writeTimed, guess.clock]
    exact guess.trans (wrote_write guess.clock _ _ _ _)

theorem wrote_perform (engine : Engine) {operation : Operation}
    (ordinary : operation.isAdministrative = false) :
    Wrote (engine.written operation) engine (engine.perform operation).2 := by
  cases operation with
  | assign | resetSettings | setClock | clearLog => cases ordinary
  | settings => exact engine.wrote_keepSettings
  | readSettings | entries | openRegistry | getContent | peekContent | subscribe | unsubscribe
  | selectVariant | matchVariant | draw | resolveDefault => exact ⟨rfl, rfl, rfl, .inr ⟨rfl, rfl⟩⟩
  | setContent id next => exact engine.wrote_setContent id next
  | write level component action metadata => exact wrote_write rfl _ _ _ _
  | writeTimed level component action start metadata => exact wrote_write rfl _ _ _ _
  | resolve request source id => exact wrote_resolve rfl request source id
  | resolveFamilies families weight italic id =>
    exact engine.wrote_resolveFamilies families weight italic id
  | resolveUntyped input mode source id => exact engine.wrote_resolveUntyped input mode source id
  | installDefault families id => exact engine.wrote_installDefault families id
  | validate schema input fallback mode => exact engine.wrote_validate _ input _ mode
  | parseRequest input mode => exact engine.wrote_validate _ input _ mode
  | parseStyle input mode => exact engine.wrote_validate _ input _ mode
  | readVariant fileName font => exact engine.wrote_readVariant fileName font

end Engine

end Typeface
