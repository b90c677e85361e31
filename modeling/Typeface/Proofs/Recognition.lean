import Typeface.Proofs.Canonical
import Typeface.Proofs.Writing

/-! Which values can be read as fonts. A face is an object whose names are texts or missing and whose angle is a
number or left out; what else it has may be anything. Of a collection the first font is read, and nothing else in
it counts; any other value has to be a face itself. A collection without fonts is one of these other values: its
empty list is passed over, and if it has nothing else, it is read as a face without a name. -/

set_option autoImplicit false

namespace Typeface

/-- The value says nothing. -/
def Value.IsMissing (value : Value) : Prop := value = .absent ∨ value = .null

namespace Decoder

variable {α : Type} {decode : Decoder α} {value : Value}

theorem exists_optional_ok_iff (required : ∀ part, decode .absent ≠ .ok part) :
    (∃ result, optional decode value = .ok result) ↔
      value = .absent ∨ ∃ part, decode value = .ok part := by
  constructor
  · rintro ⟨result, found⟩
    obtain ⟨absent, _⟩ | ⟨part, decoded, _⟩ := (optional_ok_iff required).mp found
    · exact .inl absent
    · exact .inr ⟨part, decoded⟩
  · rintro (absent | ⟨part, decoded⟩)
    · exact ⟨none, (optional_ok_iff required).mpr (.inl ⟨absent, rfl⟩)⟩
    · exact ⟨some part, (optional_ok_iff required).mpr (.inr ⟨part, decoded, rfl⟩)⟩

theorem exists_optional_number_iff :
    (∃ result, optional number value = .ok result) ↔
      value = .absent ∨ ∃ result, result ≠ .nan ∧ value = .number result := by
  rw [exists_optional_ok_iff (by simp)]
  simp only [number_ok_iff, and_comm]

theorem nullable_of_missing (missing : value.IsMissing) : nullable decode value = .ok none := by
  obtain rfl | rfl := missing <;> rfl

theorem nullable_of_present (present : ¬ value.IsMissing) :
    nullable decode value = (decode value).map some := by
  cases value with
  | absent => exact absurd (.inl rfl) present
  | null => exact absurd (.inr rfl) present
  | _ => rfl

theorem exists_nullable_ok_iff :
    (∃ result, nullable decode value = .ok result) ↔
      value.IsMissing ∨ ∃ part, decode value = .ok part := by
  by_cases missing : value.IsMissing
  · simp [nullable_of_missing missing, missing]
  · simp [nullable_of_present missing, missing, map_eq_ok_iff]

end Decoder

namespace Face

def nameMembers : List String := ["familyName", "subfamilyName", "postscriptName"]

/-- The value is an object whose names and whose angle fit, as far as it has any. -/
structure WellFormed (value : Value) : Prop where
  object : value.kind = .object
  named : ∀ name ∈ nameMembers,
    (value.member name).IsMissing ∨ ∃ text, value.member name = .string text
  angle : value.member "italicAngle" = .absent ∨
    ∃ angle, angle ≠ .nan ∧ value.member "italicAngle" = .number angle

variable {value font : Value} {face : Face}

theorem decode_ok_iff :
    decode value = .ok face ↔ value.kind = .object ∧
      Decoder.nullable .string (value.member "familyName") = .ok face.familyName ∧
      Decoder.nullable .string (value.member "subfamilyName") = .ok face.subfamilyName ∧
      Decoder.nullable .string (value.member "postscriptName") = .ok face.postscriptName ∧
      Decoder.optional .number (value.member "italicAngle") = .ok face.italicAngle ∧
      value.member "OS/2" = face.table := by
  obtain ⟨familyName, subfamilyName, postscriptName, italicAngle, table⟩ := face
  simp [decode, Decoder.anything, and_assoc]

theorem exists_decode_iff : (∃ face, decode value = .ok face) ↔ WellFormed value := by
  have named (name : String) : (∃ text, Decoder.nullable .string (value.member name) = .ok text) ↔
      (value.member name).IsMissing ∨ ∃ text, value.member name = .string text := by
    simp only [Decoder.exists_nullable_ok_iff, Decoder.string_ok_iff]
  constructor
  · rintro ⟨face, decoded⟩
    obtain ⟨object, family, subfamily, postscript, angle, _⟩ := decode_ok_iff.mp decoded
    refine ⟨object, ?_, Decoder.exists_optional_number_iff.mp ⟨_, angle⟩⟩
    simp only [nameMembers, List.forall_mem_cons, List.not_mem_nil, false_imp_iff, implies_true, and_true]
    exact ⟨(named _).mp ⟨_, family⟩, (named _).mp ⟨_, subfamily⟩, (named _).mp ⟨_, postscript⟩⟩
  · intro wellFormed
    obtain ⟨angle, angleFound⟩ := Decoder.exists_optional_number_iff.mpr wellFormed.angle
    obtain ⟨family, familyFound⟩ := (named "familyName").mpr (wellFormed.named _ (by decide))
    obtain ⟨subfamily, subfamilyFound⟩ := (named "subfamilyName").mpr (wellFormed.named _ (by decide))
    obtain ⟨postscript, postscriptFound⟩ :=
      (named "postscriptName").mpr (wellFormed.named _ (by decide))
    exact ⟨⟨family, subfamily, postscript, angle, value.member "OS/2"⟩, decode_ok_iff.mpr
      ⟨wellFormed.object, familyFound, subfamilyFound, postscriptFound, angleFound, rfl⟩⟩

theorem firstFont_of_collection {first : Value} {rest : List Value}
    (collected : font.member "fonts" = .array (first :: rest)) : firstFont font = first := by
  simp only [firstFont, collected]

theorem firstFont_of_single (single : ∀ first rest, font.member "fonts" ≠ .array (first :: rest)) :
    firstFont font = font := by
  unfold firstFont
  split
  next first rest collected => exact absurd collected (single first rest)
  next => rfl

/-- A font from which a value is read as a face: the value itself, which is no collection then, or a collection in
which it comes first. -/
inductive GivenBy (value font : Value) : Prop where
  | alone (same : font = value) (single : value.member "fonts" = .absent)
  | first (rest : List Value) (collected : font.member "fonts" = .array (value :: rest))

theorem GivenBy.firstFont_eq (given : GivenBy value font) : firstFont font = value := by
  cases given with
  | alone same single =>
    subst same
    apply firstFont_of_single
    simp [single]
  | first rest collected => exact firstFont_of_collection collected

def variant (face : Face) (fileName : String) : Variant :=
  ⟨face.declaredStyle face.acceptedTable, face.familyName, face.postscriptName, some fileName⟩

end Face

namespace Engine

theorem reading_ne_nil (now : Number) (fileName : String) (face : Face) :
    reading now fileName face ≠ [] := by
  simp [reading]

/-- The font of a file is read as a variant, and the entries are written meanwhile. -/
structure Reads (engine : Engine) (fileName : String) (font : Except String Value)
    (variant : Variant) (entries : List Entry) : Prop where
  result : (engine.readVariant fileName font).1 = .ok variant
  wrote : Wrote entries engine (engine.readVariant fileName font).2

variable {fileName : String} {font : Except String Value} {face : Face}

theorem reads_of_openFace (opened : openFace fileName font = .ok face) (engine : Engine) :
    engine.Reads fileName font (face.variant fileName) (reading engine.clock fileName face) where
  result := by
    simp only [readVariant, opened, readTable_fst]
    rfl
  wrote := by
    have wrote := engine.wrote_readVariant fileName font
    simp only [written, opened] at wrote
    exact wrote

theorem Reads.toList_log {engine : Engine} {variant : Variant} {entries : List Entry}
    (reads : engine.Reads fileName font variant entries) (nonempty : entries ≠ []) :
    (engine.readVariant fileName font).2.log.entries.toList =
      (engine.log.entries.toList ++ entries).rtake engine.settings.logCapacity :=
  reads.wrote.toList_log nonempty

theorem readVariant_of_error {fault : Fault} (failed : openFace fileName font = .error fault)
    (engine : Engine) : engine.readVariant fileName font = (.error fault, engine) := by
  simp only [readVariant, failed]

theorem openFace_ok_iff {font : Value} :
    openFace fileName (.ok font) = .ok face ↔ Face.decode (Face.firstFont font) = .ok face := by
  simp only [openFace, Face.ofFont?]
  cases Face.decode (Face.firstFont font) <;> simp [Except.toOption]

theorem exists_readVariant_ok_iff (engine : Engine) (fileName : String) (font : Value) :
    (∃ variant, (engine.readVariant fileName (.ok font)).1 = .ok variant) ↔
      Face.WellFormed (Face.firstFont font) := by
  rw [← Face.exists_decode_iff]
  cases opened : openFace fileName (.ok font) with
  | ok face =>
    have read := (reads_of_openFace opened engine).result
    exact iff_of_true ⟨_, read⟩ ⟨face, openFace_ok_iff.mp opened⟩
  | error fault =>
    refine iff_of_false ?_ ?_
    · simp [readVariant_of_error opened engine]
    · rintro ⟨face, decoded⟩
      cases opened.symm.trans (openFace_ok_iff.mpr decoded)

theorem readVariant_congr {font other : Value} (same : Face.firstFont font = Face.firstFont other)
    (engine : Engine) (fileName : String) :
    engine.readVariant fileName (.ok font) = engine.readVariant fileName (.ok other) := by
  simp only [readVariant, openFace, Face.ofFont?, same]

/-- A collection with a first font is read if this font is a well-formed face, and nothing else in the collection
makes a difference. Any other value, a collection without fonts included, is read if it is a well-formed face
itself. -/
theorem readVariant_iff_wellFormed (engine : Engine) (fileName : String) (font : Value) :
    (∀ first rest, font.member "fonts" = .array (first :: rest) →
      ((∃ variant, (engine.readVariant fileName (.ok font)).1 = .ok variant) ↔
        Face.WellFormed first) ∧
      ∀ other otherRest, other.member "fonts" = .array (first :: otherRest) →
        engine.readVariant fileName (.ok other) = engine.readVariant fileName (.ok font)) ∧
    ((∀ first rest, font.member "fonts" ≠ .array (first :: rest)) →
      ((∃ variant, (engine.readVariant fileName (.ok font)).1 = .ok variant) ↔
        Face.WellFormed font)) := by
  have read := engine.exists_readVariant_ok_iff fileName font
  constructor
  · intro first rest collected
    have headed := Face.firstFont_of_collection collected
    refine ⟨headed ▸ read, ?_⟩
    intro other otherRest otherCollected
    apply readVariant_congr
    rw [headed, Face.firstFont_of_collection otherCollected]
  · intro single
    rwa [Face.firstFont_of_single single] at read

def roman : Value := .object [("familyName", .string "Pair"), ("subfamilyName", .null)]

/-- The first of the two fonts is a face; neither the second nor the collection itself is one. -/
def pair : Value := .object [("familyName", .boolean true), ("fonts", .array [roman, .null])]

def misnamed : Value := .object [("familyName", .boolean true)]

theorem readVariant_iff_wellFormed_pair :
    pair.member "fonts" = .array [roman, .null] ∧
      (∃ variant, (initial.readVariant "Pair.ttc" (.ok pair)).1 = .ok variant) ∧
      initial.readVariant "Pair.ttc" (.ok (.object [("fonts", .array [roman])])) =
        initial.readVariant "Pair.ttc" (.ok pair) ∧
      (∀ first rest, misnamed.member "fonts" ≠ .array (first :: rest)) ∧
      ¬ ∃ variant, (initial.readVariant "Misnamed.ttf" (.ok misnamed)).1 = .ok variant := by
  have collected : pair.member "fonts" = .array [roman, .null] := rfl
  have wellFormed : Face.WellFormed roman := Face.exists_decode_iff.mp ⟨_, rfl⟩
  have single : ∀ first rest, misnamed.member "fonts" ≠ .array (first :: rest) := by
    intro first rest held
    cases held
  have unfit : ¬ Face.WellFormed misnamed := by
    intro wellFormed
    obtain (absent | null) | ⟨text, named⟩ := wellFormed.named "familyName" (by decide)
    · cases absent
    · cases null
    · cases named
  obtain ⟨read, same⟩ := (readVariant_iff_wellFormed initial "Pair.ttc" pair).1 _ _ collected
  have unread := (readVariant_iff_wellFormed initial "Misnamed.ttf" misnamed).2 single
  exact ⟨collected, read.mpr wellFormed, same _ [] rfl, single, fun found => unfit (unread.mp found)⟩

def emptyCollection : Value := .object [("fonts", .array [])]

/-- There is no first font, and yet the collection is read, as a face without a name. -/
theorem readVariant_emptyCollection :
    emptyCollection.member "fonts" = .array [] ∧
      (initial.readVariant "Empty.ttc" (.ok emptyCollection)).1 =
        .ok ⟨.regular, none, none, some "Empty.ttc"⟩ ∧
      ¬ ((∃ variant, (initial.readVariant "Empty.ttc" (.ok emptyCollection)).1 = .ok variant) ↔
        ∃ first rest, emptyCollection.member "fonts" = .array (first :: rest) ∧
          Face.WellFormed first) := by
  have empty : emptyCollection.member "fonts" = .array [] := rfl
  have read : (initial.readVariant "Empty.ttc" (.ok emptyCollection)).1 =
      .ok ⟨.regular, none, none, some "Empty.ttc"⟩ := rfl
  refine ⟨empty, read, ?_⟩
  intro claimed
  obtain ⟨first, rest, collected, _⟩ := claimed.mp ⟨_, read⟩
  cases empty.symm.trans collected

end Engine

end Typeface
