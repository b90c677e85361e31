import Typeface.Proofs.Precedence

/-! What a reading of a font leaves behind. It comes to nothing, and then nothing is left; or it comes to a variant,
and then the log tells on what grounds. A table that was passed over is warned of, and so is a weight that was
taken from a name. Either warning is there if and only if there is cause for it, and the last entry tells the
style that was read. -/

set_option autoImplicit false

namespace Typeface

namespace StyleTable

def Damaged (value : Value) : Prop := ¬ value.IsMissing ∧ ∀ table, decode value ≠ .ok table

def Weighs (value : Value) : Prop :=
  (∃ table, decode value = .ok table) ∧ ∃ weight, value.member "usWeightClass" = .number weight

end StyleTable

namespace Face

variable {face : Face}

theorem exists_decodeTable_error_iff :
    (∃ issues, face.decodeTable = .error issues) ↔ StyleTable.Damaged face.table := by
  by_cases missing : face.table.IsMissing
  · simp [decodeTable_of_missing missing, StyleTable.Damaged, missing]
  · rw [decodeTable_of_present missing]
    cases found : StyleTable.decode face.table <;>
      simp [Except.map, StyleTable.Damaged, missing, found]

theorem exists_acceptedTable_weightClass_iff :
    (∃ weight, face.acceptedTable.bind StyleTable.weightClass = some weight) ↔
      StyleTable.Weighs face.table := by
  simp only [Option.bind_eq_some_iff, acceptedTable_eq_some_iff]
  constructor
  · rintro ⟨weight, table, accepted, weighs⟩
    exact ⟨⟨table, accepted⟩, weight, (StyleTable.weightClass_eq_some_iff accepted).mp weighs⟩
  · rintro ⟨⟨table, accepted⟩, weight, written⟩
    exact ⟨weight, table, accepted, (StyleTable.weightClass_eq_some_iff accepted).mpr written⟩

end Face

namespace Entry

/-- One entry, of which something holds, if a condition is met, and otherwise none. -/
inductive OneIf (condition : Prop) (holds : Entry → Prop) : List Entry → Prop where
  | one (met : condition) (entry : Entry) (described : holds entry) : OneIf condition holds [entry]
  | none (unmet : ¬ condition) : OneIf condition holds []

structure Account (table : Value) (style : Style) (damage guess : List Entry) (last : Entry) : Prop where
  damaged : OneIf (StyleTable.Damaged table) (·.IsNotice .warn "invalid OS/2 table") damage
  guessed : OneIf (¬ StyleTable.Weighs table)
    (fun entry => entry.IsNotice .warn "weight from subfamily name" ∧
      entry.told? "weight" = some (.number style.weight.toNumber)) guess
  read : last.IsNotice .debug "read"
  weight : last.told? "weight" = some (.number style.weight.toNumber)
  slant : last.told? "slant" = some (.string style.slant.name)

end Entry

namespace Engine

theorem oneIf_tableWarning (now : Number) (fileName : String) (face : Face) :
    Entry.OneIf (StyleTable.Damaged face.table) (·.IsNotice .warn "invalid OS/2 table")
      (tableWarning now fileName face) := by
  cases found : face.decodeTable with
  | ok table =>
    rw [tableWarning_of_ok found]
    apply Entry.OneIf.none
    rw [← Face.exists_decodeTable_error_iff, found]
    simp
  | error issues =>
    rw [tableWarning_of_error found]
    exact .one (Face.exists_decodeTable_error_iff.mp ⟨issues, found⟩) _ ⟨rfl, rfl, rfl⟩

theorem oneIf_guessing (now : Number) (fileName : String) (face : Face) :
    Entry.OneIf (¬ StyleTable.Weighs face.table)
      (fun entry => entry.IsNotice .warn "weight from subfamily name" ∧
        entry.told? "weight" =
          some (.number (face.declaredStyle face.acceptedTable).weight.toNumber))
      (guessing now fileName face) := by
  unfold guessing
  rw [← Face.exists_acceptedTable_weightClass_iff]
  cases weighs : face.acceptedTable.bind StyleTable.weightClass with
  | some weight => exact .none (not_not_intro ⟨weight, rfl⟩)
  | none =>
    -- The style was declared with the weight that is told here.
    have guessed : (face.declaredStyle face.acceptedTable).weight = weightOfName face.subfamily := by
      simp only [Face.declaredStyle, Face.declaredWeight, weighs]
    rw [guessed]
    exact .one (by simp) _ ⟨⟨rfl, rfl, rfl⟩, rfl⟩

theorem account_reading (now : Number) (fileName : String) (face : Face) :
    Entry.Account face.table (face.variant fileName).style (tableWarning now fileName face)
      (guessing now fileName face)
      (.reading now fileName (face.declaredStyle face.acceptedTable)) where
  damaged := oneIf_tableWarning now fileName face
  guessed := oneIf_guessing now fileName face
  read := ⟨rfl, rfl, rfl⟩
  weight := rfl
  slant := rfl

/-- A font is either not read, and then the engine is left as it was; or it is read as a variant with the name of
the file, and the log is extended by entries that account for the style, as far as its capacity permits. -/
theorem readVariant_atomic (engine : Engine) (fileName : String) (font : Except String Value) :
    (∃ fault, engine.readVariant fileName font = (.error fault, engine)) ∨
      ∃ value variant damage guess last, font = .ok value ∧
        engine.Reads fileName font variant (damage ++ guess ++ [last]) ∧
        (engine.readVariant fileName font).2.log.entries.toList =
          (engine.log.entries.toList ++ (damage ++ guess ++ [last])).rtake
            engine.settings.logCapacity ∧
        variant.fileName = some fileName ∧
        (1 ≤ variant.style.weight.value ∧ variant.style.weight.value ≤ 1000) ∧
        Entry.Account ((Face.firstFont value).member "OS/2") variant.style damage guess last := by
  cases opened : openFace fileName font with
  | error fault => exact .inl ⟨fault, readVariant_of_error opened engine⟩
  | ok face =>
    right
    cases font with
    | error reason => cases opened
    | ok value =>
      have reads := reads_of_openFace opened engine
      have logged := reads.toList_log (reading_ne_nil _ _ _)
      obtain ⟨_, _, _, _, _, tabled⟩ := Face.decode_ok_iff.mp (openFace_ok_iff.mp opened)
      have account := account_reading engine.clock fileName face
      rw [← tabled] at account
      exact ⟨value, face.variant fileName, _, _, _, rfl, reads, logged, rfl,
        ⟨Weight.one_le _, Weight.le_thousand _⟩, account⟩

end Engine

end Typeface
