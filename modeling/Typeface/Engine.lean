import Typeface.Face.DeclaredStyle
import Typeface.Log
import Typeface.Registry
import Typeface.Schema

/-! The engine: settings that are read once and kept until they are reset, a clock, the log, and the
registries that hold default identities. A request, a check or a reading that fails leaves the log
and the registries as they were. -/

set_option autoImplicit false

namespace Typeface

abbrev RegistryId := Nat

structure Engine where
  environment : Environment
  -- The settings, once they have been read.
  kept : Option Settings
  clock : Number
  log : Log
  registries : RegistryId → Registry Identity
  -- What has occurred at the registries, oldest first.
  occurrences : Array (RegistryId × Occurrence Identity)

namespace Engine

def sharedRegistry : RegistryId := 0

def initial : Engine where
  environment := fun _ => none
  kept := none
  clock := .ofInt 0
  log := .empty
  registries := fun _ => .ofContent none
  occurrences := #[]

/-! Settings. -/

/-- The settings in force: those kept, or else those of the environment as it is now. -/
def settings (engine : Engine) : Settings := engine.kept.getD (.ofEnvironment engine.environment)

def keepSettings (engine : Engine) : Engine := { engine with kept := some engine.settings }

@[simp] theorem settings_keepSettings (engine : Engine) :
    engine.keepSettings.settings = engine.settings := rfl

def resetSettings (engine : Engine) : Engine := { engine with kept := none }

def assign (engine : Engine) (name : String) (value : Option String) : Engine :=
  { engine with environment := engine.environment.assign name value }

def setClock (engine : Engine) (now : Number) : Engine := { engine with clock := now }

/-! Logging. -/

def write (engine : Engine) (level : Level) (component action : String)
    (metadata : Option Metadata) : Engine :=
  let engine := engine.keepSettings
  { engine with
    log := engine.log.write engine.settings ⟨engine.clock, level, component, action, metadata⟩ }

@[simp] theorem settings_write (engine : Engine) (level : Level) (component action : String)
    (metadata : Option Metadata) :
    (engine.write level component action metadata).settings = engine.settings := rfl

@[simp] theorem registries_write (engine : Engine) (level : Level) (component action : String)
    (metadata : Option Metadata) :
    (engine.write level component action metadata).registries = engine.registries := rfl

@[simp] theorem occurrences_write (engine : Engine) (level : Level) (component action : String)
    (metadata : Option Metadata) :
    (engine.write level component action metadata).occurrences = engine.occurrences := rfl

def writeTimed (engine : Engine) (level : Level) (component action : String) (start : Number)
    (metadata : Metadata) : Engine :=
  engine.write level component action (some (metadata.timed engine.clock start))

def clearLog (engine : Engine) : Engine := { engine with log := engine.log.clear }

/-! Registries. -/

def registry (engine : Engine) (id : RegistryId) : Registry Identity := engine.registries id

def putRegistry (engine : Engine) (id : RegistryId) (registry : Registry Identity) : Engine :=
  { engine with registries := fun other => if other = id then registry else engine.registries other }

def setContent (engine : Engine) (id : RegistryId) (next : Option Identity) : Engine :=
  let (occurred, registry) := (engine.registry id).set next
  { engine.putRegistry id registry with
    occurrences := engine.occurrences ++ occurred.map fun occurrence => (id, occurrence) }

theorem registry_setContent (engine : Engine) (id : RegistryId) (next : Option Identity) :
    (engine.setContent id next).registry id = ((engine.registry id).set next).2 := if_pos rfl

/-! Identities. -/

def identityMetadata (kind : String) (identity : Identity) : Metadata :=
  [("kind", .string kind), ("weight", .number identity.style.weight.toNumber),
    ("slant", .string identity.style.slant.name), ("baseWeight", .number (.ofInt identity.baseWeight)),
    ("apiStyle", .string identity.styleClass.name)]

def writeIdentity (engine : Engine) (kind : String) (identity : Identity) : Engine :=
  engine.write .debug "StyleResolver" "resolve" (some (identityMetadata kind identity))

def traced (engine : Engine) (kind : String) (result : Except Fault Identity) :
    Except Fault Identity × Engine :=
  match result with
  | .error fault => (.error fault, engine)
  | .ok identity => (.ok identity, engine.writeIdentity kind identity)

def resolve (engine : Engine) (request : Request) (source : Source) (id : RegistryId) :
    Except Fault Identity × Engine :=
  engine.traced request.kind.name (request.resolve source (engine.registry id).content)

/-- The identity over a list of families. With both sides given, or both left to the fonts, this is
a request; one side of each needs no default, and goes by a kind of its own in the log. -/
def resolveFamilies (engine : Engine) (families : List Family) (weight : Wanted Number)
    (italic : Wanted Bool) (id : RegistryId) : Except Fault Identity × Engine :=
  match weight, italic with
  | .byFontTable, .byFontTable => engine.resolve .fromFontTable (.ofFamilies families) id
  | .given weight, .given italic =>
    engine.resolve (.absolute weight italic) (.ofFamilies families) id
  | weight, italic =>
    engine.traced "mixed" <|
      (selectVariant families weight italic).map fun selection => .ofStyle selection.style families

def installDefault (engine : Engine) (families : List Family) (id : RegistryId) :
    Except Fault Identity × Engine :=
  match engine.resolve .fromFontTable (.ofFamilies families) id with
  | (.error fault, engine) => (.error fault, engine)
  | (.ok identity, engine) =>
    let engine := engine.setContent id (some identity)
    (.ok identity, engine.write .info "StyleResolver" "initializeDefault" (some
      [("families", .array (families.map fun family => .string family.name)),
        ("weight", .number identity.style.weight.toNumber),
        ("slant", .string identity.style.slant.name)]))

def resolveDefault (engine : Engine) (base : Option Identity) (id : RegistryId) :
    Except Fault Identity :=
  (Source.ofBase base).identity (engine.registry id).content

/-! Untyped input. -/

def issueTexts (texts : List String) : Value := .array (texts.map .string)

/-- Checks input in the given mode, or else in the one that is set. Rejected input is an error in
strict mode; in lenient mode it is replaced by the fallback and reported in the log. -/
def validate {α : Type} (engine : Engine) (decode : Decoder α) (input : Value) (fallback : α)
    (mode : Option Mode) : Except Fault (Verdict α) × Engine :=
  -- A mode that is not given is looked up, and with it all settings kept, whatever the input is.
  let (mode, engine) :=
    match mode with
    | some mode => (mode, engine)
    | none => (engine.settings.mode, engine.keepSettings)
  match decode input, mode with
  | .ok data, _ => (.ok (.accepted data), engine)
  | .error issues, .strict => (.error (.rejected issues), engine)
  | .error issues, .lenient =>
    (.ok (.replaced fallback issues), engine.write .warn "Validation" "lenient fallback"
      (some [("errors", issueTexts (issues.map Issue.text))]))

theorem validate_none {α : Type} (engine : Engine) (decode : Decoder α) (input : Value)
    (fallback : α) :
    engine.validate decode input fallback none =
      engine.keepSettings.validate decode input fallback (some engine.settings.mode) := rfl

def parseRequest (engine : Engine) (input : Value) (mode : Option Mode) :
    Except Fault Request × Engine :=
  let (verdict, engine) := engine.validate Request.decode input .fallback mode
  (verdict.map Verdict.data, engine)

def parseStyle (engine : Engine) (input : Value) (mode : Option Mode) :
    Except Fault Style × Engine :=
  let (verdict, engine) := engine.validate Style.decode input .regular mode
  (verdict.map Verdict.data, engine)

def resolveUntyped (engine : Engine) (input : Value) (mode : Option Mode) (source : Source)
    (id : RegistryId) : Except Fault Identity × Engine :=
  match engine.parseRequest input mode with
  | (.error fault, engine) => (.error fault, engine)
  | (.ok request, engine) => engine.resolve request source id

/-! Fonts. -/

def openFace (fileName : String) (font : Except String Value) : Except Fault Face :=
  match font with
  | .error reason => .error (.unreadable fileName reason)
  | .ok font =>
    match Face.ofFont? font with
    | some face => .ok face
    | none => .error (.unrecognized fileName)

/-- The table of a face. One that is rejected is reported in the log and counts as missing. -/
def readTable (engine : Engine) (fileName : String) (face : Face) : Option StyleTable × Engine :=
  match face.decodeTable with
  | .ok table => (table, engine)
  | .error issues =>
    (none, engine.write .warn "StyleReader" "invalid OS/2 table" (some
      [("fileName", .string fileName), ("errors", issueTexts (issues.map (Issue.textFrom "")))]))

def writeGuess (engine : Engine) (fileName : String) (face : Face) (table : Option StyleTable) :
    Engine :=
  match table.bind StyleTable.weightClass with
  | some _ => engine
  | none =>
    engine.write .warn "StyleReader" "weight from subfamily name" (some
      [("fileName", .string fileName), ("subfamily", .string face.subfamily),
        ("weight", .number (weightOfName face.subfamily).toNumber)])

def readVariant (engine : Engine) (fileName : String) (font : Except String Value) :
    Except Fault Variant × Engine :=
  match openFace fileName font with
  | .error fault => (.error fault, engine)
  | .ok face =>
    let start := engine.clock
    let (table, engine) := engine.readTable fileName face
    let engine := engine.writeGuess fileName face table
    let style := face.declaredStyle table
    (.ok ⟨style, face.familyName, face.postscriptName, some fileName⟩,
      engine.writeTimed .debug "StyleReader" "read" start
        [("fileName", .string fileName), ("weight", .number style.weight.toNumber),
          ("slant", .string style.slant.name)])

end Engine

end Typeface
