import Typeface.Proofs.Recognition
import Typeface.Proofs.Testimony

/-! What the table of a face counts for. A table that is accepted comes before the names and the angle: on each side
of the style that it tells, these have no say. A table that is rejected is rejected as a whole, so that it counts
as little as a missing one, and all that is left of it is a warning. In no case does a table keep a face from being
read. -/

set_option autoImplicit false

namespace Typeface

namespace Value

/-- The values are objects with the same members, but for one of them. -/
structure SameApartFrom (name : String) (left right : Value) : Prop where
  object : left.kind = .object ∧ right.kind = .object
  member : ∀ other, other ≠ name → left.member other = right.member other

theorem sameApartFrom_cons (name : String) (left right : Value) (members : List (String × Value)) :
    SameApartFrom name (.object ((name, left) :: members)) (.object ((name, right) :: members)) where
  object := ⟨rfl, rfl⟩
  member := by
    intro other different
    have unequal : (other == name) = false := beq_eq_false_iff_ne.mpr different
    simp only [Value.member, List.lookup_cons, unequal]

theorem exists_members_of_member {name : String} {value : Value} (present : value.member name ≠ .absent) :
    ∃ members, value = .object members := by
  cases value with
  | object members => exact ⟨members, rfl⟩
  | _ => exact absurd rfl present

/-- A number, or flags with one for italic. -/
def TellsSlant (selection : Value) : Prop :=
  (∃ bits, selection = .number bits) ∨ ∃ italic, selection.member "italic" = .boolean italic

end Value

namespace StyleTable

variable {value : Value} {table : StyleTable}

theorem decode_ok_iff :
    decode value = .ok table ↔ value.kind = .object ∧
      Decoder.optional .number (value.member "usWeightClass") = .ok table.weightClass ∧
      Decoder.optional SelectionField.decode (value.member "fsSelection") = .ok table.selection := by
  obtain ⟨weightClass, selection⟩ := table
  simp [decode]

theorem not_isMissing_of_decode (accepted : decode value = .ok table) : ¬ value.IsMissing := by
  rintro (rfl | rfl) <;> cases accepted

theorem weightClass_eq_some_iff (accepted : decode value = .ok table) {weight : Number} :
    table.weightClass = some weight ↔ value.member "usWeightClass" = .number weight := by
  obtain ⟨_, weighs, _⟩ := decode_ok_iff.mp accepted
  obtain ⟨absent, silent⟩ | ⟨number, found, same⟩ :=
    (Decoder.optional_ok_iff (by simp)).mp weighs
  · simp [absent, silent]
  · obtain ⟨written, _⟩ := Decoder.number_ok_iff.mp found
    simp [written, ← same]

end StyleTable

namespace SelectionField

variable {value : Value} {field : SelectionField}

theorem decode_absent_ne_ok (field : SelectionField) : decode .absent ≠ .ok field := by
  intro decoded
  cases decoded

theorem exists_italic?_of_tellsSlant (accepted : decode value = .ok field) (tells : value.TellsSlant) :
    ∃ italic, field.italic? = some italic := by
  obtain ⟨bits, rfl⟩ | ⟨italic, flagged⟩ := tells
  · simp only [decode] at accepted
    split at accepted
    · cases accepted
    · split at accepted
      · cases accepted
        exact ⟨_, rfl⟩
      · cases accepted
  · -- What has a member is an object, so that it is read for its flags.
    obtain ⟨members, rfl⟩ := Value.exists_members_of_member (by rw [flagged]; nofun)
    have decoded : Decoder.object (.member "italic" (.optional .boolean)) (.object members) =
        .ok (some italic) := by
      simp [Decoder.optional_ok_iff, flagged, Value.kind]
    simp only [decode, decoded] at accepted
    cases accepted
    exact ⟨italic, rfl⟩

end SelectionField

theorem StyleTable.exists_italic?_of_tellsSlant {value : Value} {table : StyleTable}
    (accepted : decode value = .ok table) (tells : (value.member "fsSelection").TellsSlant) :
    ∃ italic, table.italic? = some italic := by
  obtain ⟨_, _, selects⟩ := decode_ok_iff.mp accepted
  obtain ⟨absent, _⟩ | ⟨field, found, same⟩ :=
    (Decoder.optional_ok_iff SelectionField.decode_absent_ne_ok).mp selects
  · rw [absent] at tells
    obtain ⟨bits, contra⟩ | ⟨italic, contra⟩ := tells <;> cases contra
  · obtain ⟨italic, told⟩ := SelectionField.exists_italic?_of_tellsSlant found tells
    exact ⟨italic, by rw [italic?, ← same, Option.bind_some, told]⟩

namespace Face

variable {left right : Value} {face : Face} {table : StyleTable}

theorem decode_of_sameApartFrom (same : left.SameApartFrom "OS/2" right)
    (accepted : decode left = .ok face) :
    decode right = .ok { face with table := right.member "OS/2" } := by
  have keeps (name : String) (other : name ≠ "OS/2") : right.member name = left.member name :=
    (same.member name other).symm
  obtain ⟨_, family, subfamily, postscript, angle, _⟩ := decode_ok_iff.mp accepted
  rw [← keeps _ (by decide)] at family subfamily postscript angle
  exact decode_ok_iff.mpr ⟨same.object.2, family, subfamily, postscript, angle, rfl⟩

theorem decodeTable_of_missing (missing : face.table.IsMissing) : face.decodeTable = .ok none :=
  Decoder.nullable_of_missing missing

theorem decodeTable_of_present (present : ¬ face.table.IsMissing) :
    face.decodeTable = (StyleTable.decode face.table).map some :=
  Decoder.nullable_of_present present

theorem acceptedTable_of_ok {table : Option StyleTable} (found : face.decodeTable = .ok table) :
    face.acceptedTable = table := by
  rw [acceptedTable, found]
  rfl

theorem acceptedTable_of_error {issues : List Issue} (rejected : face.decodeTable = .error issues) :
    face.acceptedTable = none := by
  rw [acceptedTable, rejected]
  rfl

theorem decodeTable_of_accepted (accepted : StyleTable.decode face.table = .ok table) :
    face.decodeTable = .ok (some table) := by
  rw [decodeTable_of_present (StyleTable.not_isMissing_of_decode accepted), accepted]
  rfl

theorem decodeTable_of_rejected {issues : List Issue} (present : ¬ face.table.IsMissing)
    (rejected : StyleTable.decode face.table = .error issues) : face.decodeTable = .error issues := by
  rw [decodeTable_of_present present, rejected]
  rfl

theorem acceptedTable_eq_some_iff :
    face.acceptedTable = some table ↔ StyleTable.decode face.table = .ok table := by
  constructor
  · intro taken
    by_cases missing : face.table.IsMissing
    · cases (acceptedTable_of_ok (decodeTable_of_missing missing)).symm.trans taken
    · cases found : StyleTable.decode face.table with
      | ok other =>
        rw [acceptedTable_of_ok (decodeTable_of_accepted found)] at taken
        rw [Option.some.inj taken]
      | error issues =>
        cases (acceptedTable_of_error (decodeTable_of_rejected missing found)).symm.trans taken
  · intro accepted
    exact acceptedTable_of_ok (decodeTable_of_accepted accepted)

theorem weight_declaredStyle {weight : Number} (weighs : table.weightClass = some weight) (face : Face) :
    (face.declaredStyle (some table)).weight = .ofNumber weight := by
  simp only [declaredStyle, declaredWeight, Option.bind_some, weighs]

theorem slant_declaredStyle {italic : Bool} (leans : table.italic? = some italic) (face : Face) :
    (face.declaredStyle (some table)).slant = .ofItalic italic := by
  simp only [declaredStyle, declaredItalic, Option.bind_some, leans, Option.getD_some]

end Face

def Entry.IsNotice (entry : Entry) (level : Level) (action : String) : Prop :=
  entry.level = level ∧ entry.component = "StyleReader" ∧ entry.action = action

namespace Engine

variable {face : Face} {table : StyleTable}

theorem tableWarning_of_ok {found : Option StyleTable} (decoded : face.decodeTable = .ok found)
    (now : Number) (fileName : String) : tableWarning now fileName face = [] := by
  rw [tableWarning, decoded]

theorem tableWarning_of_error {issues : List Issue} (rejected : face.decodeTable = .error issues)
    (now : Number) (fileName : String) :
    tableWarning now fileName face = [.badTable now fileName issues] := by
  rw [tableWarning, rejected]

theorem reading_of_weightClass {weight : Number} (accepted : StyleTable.decode face.table = .ok table)
    (weighs : table.weightClass = some weight) (now : Number) (fileName : String) :
    reading now fileName face = [.reading now fileName (face.declaredStyle (some table))] := by
  have taken := Face.acceptedTable_eq_some_iff.mpr accepted
  have quiet := tableWarning_of_ok (Face.decodeTable_of_accepted accepted) now fileName
  simp only [reading, guessing, quiet, taken, Option.bind_some, weighs]
  rfl

theorem reading_of_rejected {value : Value} {issues : List Issue} (missing : face.table.IsMissing)
    (rejected : { face with table := value : Face }.decodeTable = .error issues) (now : Number)
    (fileName : String) :
    reading now fileName { face with table := value } =
      .badTable now fileName issues :: reading now fileName face := by
  have nothing := Face.decodeTable_of_missing missing
  simp only [reading, guessing, tableWarning_of_error rejected, tableWarning_of_ok nothing,
    Face.acceptedTable_of_error rejected, Face.acceptedTable_of_ok nothing]
  rfl

theorem reads_of_givenBy {value font : Value} (accepted : Face.decode value = .ok face)
    (given : Face.GivenBy value font) (engine : Engine) (fileName : String) :
    engine.Reads fileName (.ok font) (face.variant fileName) (reading engine.clock fileName face) := by
  apply reads_of_openFace
  rw [openFace_ok_iff, given.firstFont_eq]
  exact accepted

/-- A face is read whatever its table is. With a table that is rejected it is read as what it is without one, and
the log is extended by what it is extended by without one, after one warning that names the file and lists the
issues; in both cases as far as the capacity permits. -/
theorem readVariant_damagedTable {plain damaged plainFont damagedFont : Value} {face : Face}
    (accepted : Face.decode plain = .ok face) (same : plain.SameApartFrom "OS/2" damaged)
    (plainGiven : Face.GivenBy plain plainFont) (damagedGiven : Face.GivenBy damaged damagedFont)
    (engine : Engine) (fileName : String) :
    ∃ variant entries, engine.Reads fileName (.ok damagedFont) variant entries ∧
      (engine.readVariant fileName (.ok damagedFont)).2.log.entries.toList =
        (engine.log.entries.toList ++ entries).rtake engine.settings.logCapacity ∧
      ∀ issues, (plain.member "OS/2").IsMissing → ¬ (damaged.member "OS/2").IsMissing →
        StyleTable.decode (damaged.member "OS/2") = .error issues →
        ∃ warning plainEntries, engine.Reads fileName (.ok plainFont) variant plainEntries ∧
          (engine.readVariant fileName (.ok plainFont)).2.log.entries.toList =
            (engine.log.entries.toList ++ plainEntries).rtake engine.settings.logCapacity ∧
          entries = warning :: plainEntries ∧ warning.IsNotice .warn "invalid OS/2 table" ∧
          warning.told? "fileName" = some (.string fileName) ∧
          warning.told? "errors" = some (issueTexts (issues.map (Issue.textFrom ""))) := by
  have damagedReads := reads_of_givenBy (Face.decode_of_sameApartFrom same accepted) damagedGiven
    engine fileName
  have plainReads := reads_of_givenBy accepted plainGiven engine fileName
  refine ⟨_, _, damagedReads, damagedReads.toList_log (reading_ne_nil _ _ _), ?_⟩
  intro issues missing present rejected
  obtain ⟨_, _, _, _, _, tabled⟩ := Face.decode_ok_iff.mp accepted
  rw [tabled] at missing
  have refused : { face with table := damaged.member "OS/2" : Face }.decodeTable = .error issues :=
    Face.decodeTable_of_rejected present rejected
  -- Neither face takes a table, and apart from their tables they are the same.
  have sameVariant : { face with table := damaged.member "OS/2" : Face }.variant fileName =
      face.variant fileName := by
    unfold Face.variant
    rw [Face.acceptedTable_of_error refused,
      Face.acceptedTable_of_ok (Face.decodeTable_of_missing missing)]
    rfl
  rw [sameVariant]
  exact ⟨.badTable engine.clock fileName issues, reading engine.clock fileName face, plainReads,
    plainReads.toList_log (reading_ne_nil _ _ _),
    reading_of_rejected missing refused engine.clock fileName, ⟨rfl, rfl, rfl⟩, rfl, rfl⟩

def boldFace (table : Value) : Value :=
  .object [("OS/2", table), ("subfamilyName", .string "Bold"), ("italicAngle", .number .negativeZero)]

def heavyTable : Value := .object [("usWeightClass", .string "heavy"), ("fsSelection", .number (.ofInt 1))]

def heavyIssue : Issue := ⟨["usWeightClass"], .mismatch (.kind .number) .string⟩

def heavyCollection : Value := .object [("fonts", .array [boldFace heavyTable, .null])]

/-- For the sake of the weight the bit is discarded too. -/
theorem readVariant_damagedTable_heavy :
    ((boldFace .null).member "OS/2").IsMissing ∧ ¬ ((boldFace heavyTable).member "OS/2").IsMissing ∧
      StyleTable.decode ((boldFace heavyTable).member "OS/2") = .error [heavyIssue] ∧
      ∃ warning entries,
        initial.Reads "Heavy.ttc" (.ok heavyCollection)
          ⟨⟨.bold, .upright⟩, none, none, some "Heavy.ttc"⟩ (warning :: entries) ∧
        initial.Reads "Heavy.ttc" (.ok (boldFace .null))
          ⟨⟨.bold, .upright⟩, none, none, some "Heavy.ttc"⟩ entries ∧
        (initial.readVariant "Heavy.ttc" (.ok heavyCollection)).2.log.entries.toList =
          (warning :: entries).rtake 500 ∧
        (initial.readVariant "Heavy.ttc" (.ok (boldFace .null))).2.log.entries.toList =
          entries.rtake 500 ∧
        warning.told? "errors" =
          some (.array [.string "usWeightClass: Expected number, received string"]) := by
  have missing : ((boldFace .null).member "OS/2").IsMissing := .inr rfl
  have present : ¬ ((boldFace heavyTable).member "OS/2").IsMissing := by
    rintro (absent | null)
    · cases absent
    · cases null
  have rejected : StyleTable.decode ((boldFace heavyTable).member "OS/2") = .error [heavyIssue] := rfl
  have same : (boldFace .null).SameApartFrom "OS/2" (boldFace heavyTable) :=
    Value.sameApartFrom_cons "OS/2" .null heavyTable _
  have accepted : ∃ face, Face.decode (boldFace .null) = .ok face := ⟨_, rfl⟩
  obtain ⟨face, accepted⟩ := accepted
  have collected : Face.GivenBy (boldFace heavyTable) heavyCollection := .first [.null] rfl
  obtain ⟨variant, entries, read, kept, damage⟩ := readVariant_damagedTable accepted same
    (.alone rfl rfl) collected initial "Heavy.ttc"
  obtain ⟨warning, plainEntries, plainRead, plainKept, rfl, _, _, listed⟩ :=
    damage [heavyIssue] missing present rejected
  have told : variant = ⟨⟨.bold, .upright⟩, none, none, some "Heavy.ttc"⟩ := by
    have computed : (initial.readVariant "Heavy.ttc" (.ok (boldFace .null))).1 =
        .ok ⟨⟨.bold, .upright⟩, none, none, some "Heavy.ttc"⟩ := by
      decide +kernel
    exact Except.ok.inj (plainRead.result.symm.trans computed)
  subst told
  exact ⟨missing, present, rejected, warning, plainEntries, read, plainRead, kept, plainKept, listed⟩

theorem reads_byTable {value font : Value} (decoded : Face.decode value = .ok face)
    (accepted : StyleTable.decode (value.member "OS/2") = .ok table) (given : Face.GivenBy value font)
    (engine : Engine) (fileName : String) :
    ∃ variant entries, engine.Reads fileName (.ok font) variant entries ∧
      (∀ weight, (value.member "OS/2").member "usWeightClass" = .number weight →
        variant.style.weight = .ofNumber weight ∧ ∀ entry ∈ entries, entry.level ≠ .warn) ∧
      ∀ italic, table.italic? = some italic → variant.style.slant = .ofItalic italic := by
  obtain ⟨_, _, _, _, _, tabled⟩ := Face.decode_ok_iff.mp decoded
  have carried : StyleTable.decode face.table = .ok table := by rw [← tabled, accepted]
  have style : (face.variant fileName).style = face.declaredStyle (some table) :=
    congrArg face.declaredStyle (Face.acceptedTable_eq_some_iff.mpr carried)
  refine ⟨_, _, reads_of_givenBy decoded given engine fileName, ?_, ?_⟩
  · intro weight written
    have weighs := (StyleTable.weightClass_eq_some_iff accepted).mpr written
    refine ⟨by rw [style, Face.weight_declaredStyle weighs], ?_⟩
    rw [reading_of_weightClass carried weighs]
    simp [Entry.reading]
  · intro italic told
    rw [style, Face.slant_declaredStyle told]

/-- Two faces with the same table, which is accepted, are read as styles of the same weight if the table has one, and
of the same slant if it tells one, whatever their names and angles are. If the table has a weight, it is the one
that is read, and nothing is warned of. -/
theorem readVariant_byTable {left right leftFont rightFont : Value} {leftFace rightFace : Face}
    {table : StyleTable} (leftDecoded : Face.decode left = .ok leftFace)
    (rightDecoded : Face.decode right = .ok rightFace)
    (same : left.member "OS/2" = right.member "OS/2")
    (accepted : StyleTable.decode (left.member "OS/2") = .ok table)
    (leftGiven : Face.GivenBy left leftFont) (rightGiven : Face.GivenBy right rightFont)
    (engine other : Engine) (leftName rightName : String) :
    ∃ leftVariant rightVariant leftEntries rightEntries,
      engine.Reads leftName (.ok leftFont) leftVariant leftEntries ∧
      other.Reads rightName (.ok rightFont) rightVariant rightEntries ∧
      (∀ weight, (left.member "OS/2").member "usWeightClass" = .number weight →
        leftVariant.style.weight = .ofNumber weight ∧ rightVariant.style.weight = .ofNumber weight ∧
        ∀ entry ∈ leftEntries ++ rightEntries, entry.level ≠ .warn) ∧
      (((left.member "OS/2").member "fsSelection").TellsSlant →
        leftVariant.style.slant = rightVariant.style.slant) ∧
      (∀ weight, (left.member "OS/2").member "usWeightClass" = .number weight →
        ((left.member "OS/2").member "fsSelection").TellsSlant →
        leftVariant.style = rightVariant.style) := by
  obtain ⟨leftVariant, leftEntries, leftRead, leftWeight, leftSlant⟩ :=
    reads_byTable leftDecoded accepted leftGiven engine leftName
  rw [same] at accepted leftWeight ⊢
  obtain ⟨rightVariant, rightEntries, rightRead, rightWeight, rightSlant⟩ :=
    reads_byTable rightDecoded accepted rightGiven other rightName
  have leans (tells : ((right.member "OS/2").member "fsSelection").TellsSlant) :
      leftVariant.style.slant = rightVariant.style.slant := by
    obtain ⟨italic, told⟩ := StyleTable.exists_italic?_of_tellsSlant accepted tells
    rw [leftSlant italic told, rightSlant italic told]
  refine ⟨leftVariant, rightVariant, leftEntries, rightEntries, leftRead, rightRead, ?_, leans, ?_⟩
  · intro weight written
    obtain ⟨leftWeighs, leftQuiet⟩ := leftWeight weight written
    obtain ⟨rightWeighs, rightQuiet⟩ := rightWeight weight written
    exact ⟨leftWeighs, rightWeighs, List.forall_mem_append.mpr ⟨leftQuiet, rightQuiet⟩⟩
  · intro weight written tells
    have weighs : leftVariant.style.weight = rightVariant.style.weight := by
      rw [(leftWeight weight written).1, (rightWeight weight written).1]
    exact congrArg₂ Style.mk weighs (leans tells)

/-- Neither the weight nor the flag for italic is such that a test for truth would count it. -/
def faintTable : Value :=
  .object [("usWeightClass", .number (.ofInt 0)), ("fsSelection", .object [("italic", .boolean false)])]

def slantedFace : Value :=
  .object [("OS/2", faintTable), ("subfamilyName", .string "Black Oblique"),
    ("italicAngle", .number (.ofInt (-12)))]

def faintCollection : Value := .object [("fonts", .array [slantedFace])]

theorem readVariant_byTable_faint :
    (boldFace faintTable).member "OS/2" = slantedFace.member "OS/2" ∧
      (faintTable.member "usWeightClass" = .number (.ofInt 0) ∧
        (faintTable.member "fsSelection").TellsSlant) ∧
      ∃ leftVariant rightVariant leftEntries rightEntries,
        initial.Reads "Bold.ttf" (.ok (boldFace faintTable)) leftVariant leftEntries ∧
        initial.Reads "Slanted.ttc" (.ok faintCollection) rightVariant rightEntries ∧
        leftVariant.style = rightVariant.style ∧ leftVariant.style.weight = .least ∧
        ∀ entry ∈ leftEntries ++ rightEntries, entry.level ≠ .warn := by
  have same : (boldFace faintTable).member "OS/2" = slantedFace.member "OS/2" := rfl
  have weighs : faintTable.member "usWeightClass" = .number (.ofInt 0) := rfl
  have tells : (faintTable.member "fsSelection").TellsSlant := .inr ⟨false, rfl⟩
  have decoded : (∃ face, Face.decode (boldFace faintTable) = .ok face) ∧
      (∃ face, Face.decode slantedFace = .ok face) ∧
      ∃ table, StyleTable.decode ((boldFace faintTable).member "OS/2") = .ok table :=
    ⟨⟨_, rfl⟩, ⟨_, rfl⟩, ⟨_, rfl⟩⟩
  obtain ⟨⟨_, bold⟩, ⟨_, slanted⟩, ⟨_, accepted⟩⟩ := decoded
  have collected : Face.GivenBy slantedFace faintCollection := .first [] rfl
  obtain ⟨leftVariant, rightVariant, leftEntries, rightEntries, leftRead, rightRead, weight, _, style⟩ :=
    readVariant_byTable bold slanted same accepted (.alone rfl rfl) collected initial initial
      "Bold.ttf" "Slanted.ttc"
  obtain ⟨leftWeight, _, quiet⟩ := weight (.ofInt 0) weighs
  have least : Weight.ofNumber (.ofInt 0) = .least := by
    rw [Weight.ofNumber_ofInt]
    rfl
  exact ⟨same, ⟨weighs, tells⟩, leftVariant, rightVariant, leftEntries, rightEntries, leftRead, rightRead,
    style (.ofInt 0) weighs tells, leftWeight.trans least, quiet⟩

end Engine

end Typeface
