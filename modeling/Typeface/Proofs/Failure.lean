import Typeface.Proofs.Listing
import Typeface.Proofs.Undisturbed

/-! When requests fail, and what is left when they do. A request that selects fails for want of a list of
families, of a family in the list, or of a variant in a family; another one fails for want of a base
only. What a request asks for plays no part in it. A failure changes nothing. -/

set_option autoImplicit false

namespace Typeface

section

variable {ε α β : Type} {result : Except ε α} {fault : ε}

theorem map_eq_error_iff {transform : α → β} :
    result.map transform = .error fault ↔ result = .error fault := by
  cases result <;> simp [Except.map]

theorem bind_eq_error_iff {next : α → Except ε β} :
    result.bind next = .error fault ↔
      result = .error fault ∨ ∃ part, result = .ok part ∧ next part = .error fault := by
  cases result <;> simp [Except.bind]

end

/-- Why nothing can be selected from a list of families. Of families without variants the first is
named, with its position. -/
inductive Unselectable : List Family → Fault → Prop where
  | noFamilies : Unselectable [] .noFamilies
  | emptyFamily {before after : List Family} {family : Family} (stocked : Stocked before)
    (empty : family.variants = []) :
    Unselectable (before ++ family :: after) (.emptyFamily before.length family.name)

theorem firstEmpty?_eq_some_iff {families : List Family} {family : Family} {index : Nat} :
    firstEmpty? families = some (family, index) ↔
      ∃ before after, families = before ++ family :: after ∧ Stocked before ∧
        family.variants = [] ∧ index = before.length := by
  rw [firstEmpty?, List.find?_eq_some_iff_append]
  constructor
  · rintro ⟨empty, before, after, split, earlier⟩
    have place : families.zipIdx[before.length]? = some (family, index) := by simp [split]
    have families_eq := congrArg (List.map Prod.fst) split
    rw [List.zipIdx_map_fst, List.map_append, List.map_cons] at families_eq
    refine ⟨before.map Prod.fst, after.map Prod.fst, families_eq, ?_, of_decide_eq_true empty, ?_⟩
    · intro other member
      obtain ⟨entry, entryMember, rfl⟩ := List.mem_map.mp member
      simpa using earlier entry entryMember
    · rw [List.getElem?_zipIdx, Option.map_eq_some_iff] at place
      obtain ⟨_, _, same⟩ := place
      simpa using (congrArg Prod.snd same).symm
  · rintro ⟨before, after, rfl, stocked, empty, rfl⟩
    refine ⟨decide_eq_true empty, before.zipIdx, after.zipIdx (before.length + 1), ?_, ?_⟩
    · simp [List.zipIdx_append]
    · intro entry member
      have nonempty := stocked entry.1 (List.fst_mem_of_mem_zipIdx member)
      simpa using nonempty

theorem unselectable_iff {families : List Family} {fault : Fault} :
    Unselectable families fault ↔
      (families = [] ∧ fault = .noFamilies) ∨ ∃ family index,
        firstEmpty? families = some (family, index) ∧ fault = .emptyFamily index family.name := by
  constructor
  · rintro (_ | ⟨stocked, empty⟩)
    · exact .inl ⟨rfl, rfl⟩
    · exact .inr ⟨_, _, firstEmpty?_eq_some_iff.mpr ⟨_, _, rfl, stocked, empty, rfl⟩, rfl⟩
  · rintro (⟨rfl, rfl⟩ | ⟨family, index, found, rfl⟩)
    · exact .noFamilies
    · obtain ⟨before, after, rfl, stocked, empty, rfl⟩ := firstEmpty?_eq_some_iff.mp found
      exact .emptyFamily stocked empty

theorem exists_unselectable_iff {families : List Family} :
    (∃ fault, Unselectable families fault) ↔
      families = [] ∨ ∃ family ∈ families, family.variants = [] := by
  constructor
  · rintro ⟨_, _ | ⟨stocked, empty⟩⟩
    · exact .inl rfl
    · exact .inr ⟨_, List.mem_append_right _ List.mem_cons_self, empty⟩
  · rintro (rfl | ⟨family, member, empty⟩)
    · exact ⟨_, .noFamilies⟩
    · cases found : firstEmpty? families with
      | none => exact absurd empty (firstEmpty?_eq_none_iff.mp found family member)
      | some entry => exact ⟨_, unselectable_iff.mpr (.inr ⟨_, _, found, rfl⟩)⟩

theorem selectVariant_eq_error_iff {families : List Family} {weight : Wanted Number}
    {italic : Wanted Bool} {fault : Fault} :
    selectVariant families weight italic = .error fault ↔ Unselectable families fault := by
  rw [unselectable_iff]
  cases found : firstEmpty? families with
  | some entry =>
    obtain ⟨family, index⟩ := entry
    have failed : selectVariant families weight italic =
        .error (.emptyFamily index family.name) := by
      simp [selectVariant, Selection.checked, found]
    rw [failed]
    constructor
    · intro same
      exact .inr ⟨family, index, rfl, (Except.error.inj same).symm⟩
    · rintro (⟨rfl, _⟩ | ⟨_, _, same, rfl⟩)
      · cases found
      · cases same
        rfl
  | none =>
    cases families with
    | nil => cases weight <;> cases italic <;> simp [selectVariant, Selection.checked, found,
        Selection.byStyle?, Selection.byFontTable?, Selection.candidates, eq_comm]
    | cons family rest =>
      obtain ⟨selection, success⟩ :
          ∃ selection, selectVariant (family :: rest) weight italic = .ok selection :=
        selectVariant_ok_iff.mpr ⟨List.cons_ne_nil _ _, firstEmpty?_eq_none_iff.mp found⟩
      simp [success]

/-- The list given, even if it is empty, or else the families of the base, or of the default. -/
def Source.inForce? (source : Source) (default : Option Identity) : Option (List Family) :=
  source.families.or ((source.base.or default).map Identity.families)

namespace Request

variable {request : Request} {source : Source} {default : Option Identity} {fault : Fault}

/-- The fault by which a request fails, where it does. Only the kind of the request counts. -/
def FailsBy (request : Request) (source : Source) (default : Option Identity) (fault : Fault) : Prop :=
  match request.kind with
  | .relative | .rebaseWeight => source.base.or default = none ∧ fault = .noDefault
  | .absolute | .fromFontTable =>
    (source.inForce? default = none ∧ fault = .noDefault) ∨
      ∃ families, source.inForce? default = some families ∧ Unselectable families fault

theorem identity_eq_error_iff :
    source.identity default = .error fault ↔ source.base.or default = none ∧ fault = .noDefault := by
  unfold Source.identity
  cases source.base.or default <;> simp [eq_comm]

theorem drawnFrom_eq (source : Source) (default : Option Identity) :
    source.drawnFrom default =
      match source.inForce? default with
      | some families => .ok families
      | none => .error .noDefault := by
  obtain ⟨base, families⟩ := source
  cases families with
  | some families => rfl
  | none => cases base <;> cases default <;> rfl

theorem resolve_eq_error_iff :
    request.resolve source default = .error fault ↔ request.FailsBy source default fault := by
  have selects {weight : Wanted Number} {italic : Wanted Bool} :
      ((source.drawnFrom default).bind fun families =>
        (selectVariant families weight italic).map fun selection =>
          Identity.ofStyle selection.style families) = .error fault ↔
        (source.inForce? default = none ∧ fault = .noDefault) ∨
          ∃ families, source.inForce? default = some families ∧ Unselectable families fault := by
    rw [bind_eq_error_iff, drawnFrom_eq]
    cases source.inForce? default with
    | none => simp [eq_comm]
    | some families => simp [map_eq_error_iff, selectVariant_eq_error_iff]
  cases request with
  | absolute weight italic => exact selects
  | fromFontTable => exact selects
  | relative style => exact map_eq_error_iff.trans identity_eq_error_iff
  | rebaseWeight weight => exact map_eq_error_iff.trans identity_eq_error_iff

def Breaches (request : Request) (source : Source) (default : Option Identity) : Prop :=
  match request.kind with
  | .relative | .rebaseWeight => source.base = none ∧ default = none
  | .absolute | .fromFontTable =>
    (source.families = none ∧ source.base = none ∧ default = none) ∨
      ∃ families, source.inForce? default = some families ∧
        (families = [] ∨ ∃ family ∈ families, family.variants = [])

theorem exists_failsBy_iff :
    (∃ fault, request.FailsBy source default fault) ↔ request.Breaches source default := by
  have selects :
      (∃ fault, (source.inForce? default = none ∧ fault = .noDefault) ∨
        ∃ families, source.inForce? default = some families ∧ Unselectable families fault) ↔
      (source.families = none ∧ source.base = none ∧ default = none) ∨
        ∃ families, source.inForce? default = some families ∧
          (families = [] ∨ ∃ family ∈ families, family.variants = []) := by
    constructor
    · rintro ⟨fault, ⟨nowhere, rfl⟩ | ⟨families, found, reason⟩⟩
      · exact .inl (by simpa [Source.inForce?] using nowhere)
      · exact .inr ⟨families, found, exists_unselectable_iff.mp ⟨fault, reason⟩⟩
    · rintro (nowhere | ⟨families, found, lacking⟩)
      · exact ⟨_, .inl ⟨by simpa [Source.inForce?] using nowhere, rfl⟩⟩
      · obtain ⟨fault, reason⟩ := exists_unselectable_iff.mpr lacking
        exact ⟨fault, .inr ⟨families, found, reason⟩⟩
  cases request with
  | absolute weight italic => exact selects
  | fromFontTable => exact selects
  | relative style => simp [FailsBy, Breaches, kind]
  | rebaseWeight weight => simp [FailsBy, Breaches, kind]

end Request

namespace Engine

structure FailsCleanly (engine : Engine) (result : Except Fault Identity × Engine) (breach : Prop) :
    Prop where
  iff : (∃ fault, result.1 = .error fault) ↔ breach
  unchanged : ∀ fault, result.1 = .error fault → result.2 = engine

theorem resolve_failsCleanly (engine : Engine) (request : Request) (source : Source)
    (id : RegistryId) :
    engine.FailsCleanly (engine.resolve request source id)
      (request.Breaches source (engine.registry id).content) where
  iff := by simp only [resolve_fst, Request.resolve_eq_error_iff, Request.exists_failsBy_iff]
  unchanged := by
    intro fault failed
    rw [resolve_fst] at failed
    rw [resolve, failed]
    rfl

theorem installDefault_failsCleanly (engine : Engine) (families : List Family) (id : RegistryId) :
    engine.FailsCleanly (engine.installDefault families id)
      (families = [] ∨ ∃ family ∈ families, family.variants = []) := by
  have resolved := engine.resolve_failsCleanly .fromFontTable (.ofFamilies families) id
  have lacking : Request.Breaches .fromFontTable (.ofFamilies families) (engine.registry id).content ↔
      families = [] ∨ ∃ family ∈ families, family.variants = [] := by
    simp [Request.Breaches, Request.kind, Source.inForce?, Source.ofFamilies]
  unfold installDefault
  split
  next fault after failed =>
    rw [failed] at resolved
    exact ⟨resolved.iff.trans lacking, resolved.unchanged⟩
  next identity after found =>
    rw [found] at resolved
    exact ⟨resolved.iff.trans lacking, fun fault failed => nomatch failed⟩

/-- Requests and the installation of a default fail exactly if their contract is broken, and a failure
leaves the engine as it was. Two requests of one kind fail for the same reasons, whatever the weight. -/
theorem fails_exactly (engine : Engine) (id : RegistryId) :
    (∀ request source, engine.FailsCleanly (engine.resolve request source id)
      (request.Breaches source (engine.registry id).content)) ∧
    (∀ families, engine.FailsCleanly (engine.installDefault families id)
      (families = [] ∨ ∃ family ∈ families, family.variants = [])) ∧
    ∀ request other source fault, request.kind = other.kind →
      (engine.resolve request source id).1 = .error fault →
      (engine.resolve other source id).1 = .error fault := by
  refine ⟨?_, ?_, ?_⟩
  · exact fun request source => engine.resolve_failsCleanly request source id
  · exact fun families => engine.installDefault_failsCleanly families id
  · intro request other source fault same failed
    rw [resolve_fst, Request.resolve_eq_error_iff] at failed ⊢
    simpa only [Request.FailsBy, same] using failed

def gappyFamilies : List Family := [⟨"Sans", [.plain 400 .upright]⟩, ⟨"Serif", []⟩]

theorem fails_exactly_gappy :
    ∃ fault,
      (Engine.initial.resolve (.absolute (.ofInt 400) false) (.ofFamilies gappyFamilies)
        sharedRegistry).1 = .error fault ∧
      (Engine.initial.resolve (.absolute .nan true) (.ofFamilies gappyFamilies)
        sharedRegistry).1 = .error fault ∧
      (Engine.initial.installDefault gappyFamilies sharedRegistry).2 = .initial := by
  obtain ⟨requests, installs, alike⟩ := fails_exactly .initial sharedRegistry
  have lacking : gappyFamilies = [] ∨ ∃ family ∈ gappyFamilies, family.variants = [] :=
    .inr ⟨⟨"Serif", []⟩, by decide, rfl⟩
  obtain ⟨fault, failed⟩ := (requests (.absolute (.ofInt 400) false) (.ofFamilies gappyFamilies)).iff.mpr
    (.inr ⟨gappyFamilies, rfl, lacking⟩)
  obtain ⟨reason, refused⟩ := (installs gappyFamilies).iff.mpr lacking
  exact ⟨fault, failed, alike _ _ _ _ rfl failed, (installs gappyFamilies).unchanged reason refused⟩

end Engine

end Typeface
