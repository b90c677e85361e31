import Mathlib.Data.List.Induction
import Typeface.Proofs.Listing
import Typeface.Proofs.Undisturbed

/-! Histories of requests, each from the identity that the one before led to. A request that selects or
rebases takes nothing but the families from its base, and a relative one nothing but the base weight
and the families. So of a whole history the last request of the first sort counts and the last relative
one after it. -/

set_option autoImplicit false

namespace Typeface

def Request.isRelative (request : Request) : Bool := request.kind == .relative

theorem Request.isRelative_iff {request : Request} :
    request.isRelative = true ↔ ∃ wanted, request = .relative wanted := by
  cases request <;> simp [isRelative, kind]

/-- The last request of a history that is not relative. -/
def anchor? (history : List Request) : Option Request :=
  history.reverse.find? fun request => !request.isRelative

/-- The last of the relative requests that no other request follows. -/
def variation? (history : List Request) : Option Request :=
  (history.reverse.takeWhile Request.isRelative).head?

def essential (history : List Request) : List Request :=
  (anchor? history).toList ++ (variation? history).toList

theorem essential_concat_relative {last : Request} (relative : last.isRelative = true)
    (history : List Request) : essential (history ++ [last]) = (anchor? history).toList ++ [last] := by
  simp [essential, anchor?, variation?, relative]

theorem essential_concat_anchor {last : Request} (anchors : last.isRelative = false)
    (history : List Request) : essential (history ++ [last]) = [last] := by
  simp [essential, anchor?, variation?, anchors]

theorem isRelative_of_variation? {history : List Request} {request : Request}
    (found : variation? history = some request) : request.isRelative = true := by
  have member := List.mem_of_head? found
  exact List.all_eq_true.mp List.all_takeWhile request member

namespace Identity

variable {base other identity : Identity} {request : Request}

def after (base : Identity) (request : Request) : Except Fault Identity :=
  request.resolve (.ofBase (some base)) none

theorem resolve_ofBase (base : Identity) (request : Request) (default : Option Identity) :
    request.resolve (.ofBase (some base)) default = base.after request := by
  cases request <;> rfl

theorem relative_congr (weights : base.baseWeight = other.baseWeight)
    (families : base.families = other.families) (wanted : StyleClass) :
    base.relative wanted = other.relative wanted := by
  simp only [relative, weights, families]

theorem after_congr (families : base.families = other.families)
    (anchors : request.isRelative = false) : base.after request = other.after request := by
  cases request with
  | relative wanted => cases anchors
  | _ => simp only [after, Request.resolve, Source.drawnFrom, Source.identity, Source.ofBase,
      Option.some_or, Except.map, families]

theorem after_absolute (nonempty : base.families ≠ []) (stocked : Stocked base.families)
    (weight : Number) (italic : Bool) :
    base.after (.absolute weight italic) =
      .ok (.ofStyle (.ofNumber weight (.ofItalic italic)) base.families) := by
  obtain ⟨selection, found⟩ :
      ∃ selection, selectVariant base.families (.given weight) (.given italic) = .ok selection :=
    selectVariant_ok_iff.mpr ⟨nonempty, stocked⟩
  have member := Selection.mem_among_of_byStyle? (Selection.checked_ok_iff.mp found).2
  obtain ⟨_, _, style⟩ := Selection.mem_among.mp member
  show (selectVariant base.families (.given weight) (.given italic)).map _ = _
  rw [found, ← style]
  rfl

theorem exists_after (nonempty : base.families ≠ []) (stocked : Stocked base.families)
    (request : Request) :
    ∃ identity, base.after request = .ok identity ∧ identity.families = base.families := by
  cases request with
  | absolute weight italic => exact ⟨_, after_absolute nonempty stocked weight italic, rfl⟩
  | relative wanted => exact ⟨base.relative wanted, rfl, rfl⟩
  | rebaseWeight weight => exact ⟨.ofBaseWeight weight base.families, rfl, rfl⟩
  | fromFontTable =>
    obtain ⟨selection, found⟩ :
        ∃ selection, selectVariant base.families .byFontTable .byFontTable = .ok selection :=
      selectVariant_ok_iff.mpr ⟨nonempty, stocked⟩
    refine ⟨.ofStyle selection.style base.families, ?_, rfl⟩
    show (selectVariant base.families .byFontTable .byFontTable).map _ = _
    rw [found]
    rfl

theorem exists_foldlM_after (nonempty : base.families ≠ []) (stocked : Stocked base.families)
    (history : List Request) :
    ∃ identity, history.foldlM after base = .ok identity ∧ identity.families = base.families := by
  induction history generalizing base with
  | nil => exact ⟨base, rfl, rfl⟩
  | cons request later ih =>
    obtain ⟨next, reached, kept⟩ := exists_after nonempty stocked request
    obtain ⟨identity, final, keptLater⟩ := ih (kept ▸ nonempty) (kept ▸ stocked)
    refine ⟨identity, ?_, keptLater.trans kept⟩
    rw [List.foldlM_cons, reached]
    exact final

theorem relative_of_foldlM_after {history : List Request}
    (relative : ∀ request ∈ history, request.isRelative = true)
    (reached : history.foldlM after base = .ok identity) (wanted : StyleClass) :
    identity.relative wanted = base.relative wanted := by
  induction history generalizing base with
  | nil =>
    cases reached
    rfl
  | cons request later ih =>
    obtain ⟨first, rfl⟩ := Request.isRelative_iff.mp (relative request List.mem_cons_self)
    change later.foldlM after (base.relative first) = .ok identity at reached
    have rest := ih (fun other member => relative other (List.mem_cons_of_mem _ member)) reached
    exact rest.trans (relative_congr rfl rfl wanted)

theorem foldlM_after_essential (nonempty : base.families ≠ []) (stocked : Stocked base.families)
    (history : List Request) :
    (essential history).foldlM after base = history.foldlM after base := by
  induction history using List.reverseRecOn with
  | nil => rfl
  | append_singleton history last ih =>
    obtain ⟨middle, reached, kept⟩ := exists_foldlM_after nonempty stocked history
    cases relative : last.isRelative with
    | false =>
      rw [essential_concat_anchor relative, List.foldlM_append, reached]
      simp only [List.foldlM_cons]
      change (base.after last).bind _ = (middle.after last).bind _
      rw [after_congr kept relative]
    | true =>
      obtain ⟨wanted, rfl⟩ := Request.isRelative_iff.mp relative
      obtain ⟨start, anchored, _⟩ := exists_foldlM_after nonempty stocked (anchor? history).toList
      rw [essential, List.foldlM_append, anchored, reached] at ih
      -- Between the anchor and the last request stand relative ones only.
      have same : middle.relative wanted = start.relative wanted := by
        refine relative_of_foldlM_after ?_ ih wanted
        intro request member
        exact isRelative_of_variation? (Option.mem_toList.mp member)
      rw [essential_concat_relative relative, List.foldlM_append, List.foldlM_append, anchored,
        reached]
      change Except.ok (start.relative wanted) = Except.ok (middle.relative wanted)
      rw [same]

theorem foldlM_after_rebaseWeight (nonempty : base.families ≠ []) (stocked : Stocked base.families)
    (weight : Number) (italic : Bool) (wanted : StyleClass) :
    [.rebaseWeight weight, .relative wanted].foldlM after base =
      [.absolute weight italic, .relative wanted].foldlM after base := by
  simp only [List.foldlM_cons]
  rw [after_absolute nonempty stocked]
  rfl

end Identity

namespace Engine

/-- The identity that requests lead to, each taking the result of the one before as its base. -/
def derive (engine : Engine) (id : RegistryId) (base : Identity) :
    List Request → Except Fault Identity × Engine
  | [] => (.ok base, engine)
  | request :: later =>
    match engine.resolve request (.ofBase (some base)) id with
    | (.ok identity, engine) => engine.derive id identity later
    | (.error fault, engine) => (.error fault, engine)

theorem derive_fst (engine : Engine) (id : RegistryId) (base : Identity) (history : List Request) :
    (engine.derive id base history).1 = history.foldlM Identity.after base := by
  induction history generalizing engine base with
  | nil => rfl
  | cons request later ih =>
    have result := engine.resolve_fst request (.ofBase (some base)) id
    rw [Identity.resolve_ofBase] at result
    rw [List.foldlM_cons, ← result, derive]
    split
    next identity engine step => rw [step, ih]; rfl
    next fault engine step => rw [step]; rfl

/-- From a base whose families all have variants a history of any length leads to an identity, the
same one as its last request that is not relative and the last relative one after it. In particular
relative requests do not add up, and to them a new base weight is as good as an absolute weight. -/
theorem derive_essential (engine : Engine) (id : RegistryId) {base : Identity}
    (nonempty : base.families ≠ []) (stocked : Stocked base.families) :
    (∀ history, ∃ identity,
      (engine.derive id base history).1 = .ok identity ∧
      (engine.derive id base (essential history)).1 = .ok identity) ∧
    (∀ styles last,
      (engine.derive id base ((styles ++ [last]).map .relative)).1 =
        (engine.derive id base [.relative last]).1) ∧
    ∀ weight italic style,
      (engine.derive id base [.rebaseWeight weight, .relative style]).1 =
        (engine.derive id base [.absolute weight italic, .relative style]).1 := by
  simp only [derive_fst]
  refine ⟨?_, ?_, ?_⟩
  · intro history
    obtain ⟨identity, reached, _⟩ := Identity.exists_foldlM_after nonempty stocked history
    exact ⟨identity, reached, (Identity.foldlM_after_essential nonempty stocked history).trans reached⟩
  · intro styles last
    rw [← Identity.foldlM_after_essential nonempty stocked, List.map_append, List.map_singleton,
      essential_concat_relative rfl]
    suffices none : anchor? (styles.map Request.relative) = none by rw [none]; rfl
    simp [anchor?, Request.isRelative, Request.kind]
  · intro weight italic style
    exact Identity.foldlM_after_rebaseWeight nonempty stocked weight italic style

def remoteIdentity : Identity :=
  ⟨⟨.ofInt 450, .italic⟩, -250, .bold, [⟨"Sans", [.plain 300 .upright]⟩]⟩

def wanderings : List Request :=
  [.relative .bold, .absolute .nan true, .relative .italic, .fromFontTable,
    .rebaseWeight (.ofInt 800), .relative .bold, .relative .boldItalic]

theorem derive_essential_wanderings :
    remoteIdentity.families ≠ [] ∧ Stocked remoteIdentity.families ∧
      ∃ identity, (initial.derive 0 remoteIdentity wanderings).1 = .ok identity ∧
        (initial.derive 0 remoteIdentity [.rebaseWeight (.ofInt 800), .relative .boldItalic]).1 =
          .ok identity := by
  have nonempty : remoteIdentity.families ≠ [] := by decide
  have stocked : Stocked remoteIdentity.families := by decide
  exact ⟨nonempty, stocked, (initial.derive_essential 0 nonempty stocked).1 wanderings⟩

end Engine

end Typeface
