import Typeface.Proofs.Discovery
import Typeface.Proofs.Drawing

/-! Families that are split, merged or listed in another order. Which of two equally good variants stands first
depends on the listing, and so do the family and the variant that are chosen. But how good the choice is does
not: the nearest variants have the same distance from a wanted style, and the heaviest regular ones the same
style. -/

set_option autoImplicit false

namespace Typeface

/-- The families have the same variants, each as many times. -/
def Regrouped (families others : List Family) : Prop :=
  (families.flatMap Family.variants).Perm (others.flatMap Family.variants)

instance (families others : List Family) : Decidable (Regrouped families others) :=
  inferInstanceAs (Decidable (List.Perm _ _))

theorem IsForemost.key_eq {α β : Type} [LinearOrder β] {key : α → β} {list others : List α}
    {winner other : α} (left : IsForemost key list winner) (right : IsForemost key others other)
    (members : ∀ rival, rival ∈ list ↔ rival ∈ others) : key winner = key other :=
  le_antisymm (left.le ((members other).mpr right.mem)) (right.le ((members winner).mp left.mem))

section

variable {families others : List Family}

theorem Regrouped.mem_iff (regrouped : Regrouped families others) (variant : Variant) :
    variant ∈ families.flatMap Family.variants ↔ variant ∈ others.flatMap Family.variants :=
  List.Perm.mem_iff regrouped

theorem isForemost_of_draw {identity : Identity} {drawn : Selection}
    (success : identity.draw = .ok drawn) :
    IsForemost (fun variant : Variant => matchScore identity.style variant.style)
      (identity.families.flatMap Family.variants) drawn.variant := by
  rw [← map_snd_listing]
  exact (drawsNearest_of_draw success).foremost.map
    (fun variant : Variant => matchScore identity.style variant.style) Prod.snd

theorem Regrouped.matchScore_eq {identity other : Identity} {drawn otherDrawn : Selection}
    (regrouped : Regrouped identity.families other.families) (same : identity.style = other.style)
    (success : identity.draw = .ok drawn) (otherSuccess : other.draw = .ok otherDrawn) :
    matchScore identity.style drawn.variant.style =
      matchScore other.style otherDrawn.variant.style := by
  have left := isForemost_of_draw success
  have right := isForemost_of_draw otherSuccess
  rw [← same] at right ⊢
  exact left.key_eq right regrouped.mem_iff

theorem Request.resolve_fromFontTable {source : Source} {default : Option Identity}
    (drawn : source.drawnFrom default = .ok families) {selection : Selection}
    (success : selectVariant families .byFontTable .byFontTable = .ok selection) :
    Request.fromFontTable.resolve source default = .ok (.ofStyle selection.style families) := by
  simp only [Request.resolve, drawn, success, Except.bind, Except.map]

end

namespace Engine

/-- Two lists of families that all have variants, and together the same variants. If one of these is
regular, requests for what the font tables declare lead to identities of the same style, base weight and
class over both lists. And two identities of one style, each over one of the lists, are drawn with variants
that are equally near to it. -/
theorem alike_of_regrouped {families others : List Family} (nonempty : families ≠ [])
    (stocked : Stocked families) (othersNonempty : others ≠ []) (othersStocked : Stocked others)
    (regrouped : Regrouped families others) :
    ((∃ variant ∈ families.flatMap Family.variants, variant.style.IsRegular) →
      ∃ identity other : Identity,
        (∀ (engine : Engine) id (source : Source),
          source.drawnFrom (engine.registry id).content = .ok families →
          (engine.resolve .fromFontTable source id).1 = .ok identity) ∧
        (∀ (engine : Engine) id (source : Source),
          source.drawnFrom (engine.registry id).content = .ok others →
          (engine.resolve .fromFontTable source id).1 = .ok other) ∧
        identity.style = other.style ∧ identity.baseWeight = other.baseWeight ∧
        identity.styleClass = other.styleClass) ∧
    ∀ identity other : Identity,
      identity.families = families → other.families = others → identity.style = other.style →
      ∃ drawn otherDrawn, identity.draw = .ok drawn ∧ other.draw = .ok otherDrawn ∧
        matchScore identity.style drawn.variant.style =
          matchScore other.style otherDrawn.variant.style := by
  constructor
  · intro regular
    obtain ⟨selection, success⟩ :
        ∃ selection, selectVariant families .byFontTable .byFontTable = .ok selection :=
      selectVariant_ok_iff.mpr ⟨nonempty, stocked⟩
    obtain ⟨otherSelection, otherSuccess⟩ :
        ∃ selection, selectVariant others .byFontTable .byFontTable = .ok selection :=
      selectVariant_ok_iff.mpr ⟨othersNonempty, othersStocked⟩
    have left := Selection.representative_of_byFontTable? stocked
      (Selection.checked_ok_iff.mp success).2
    have right := Selection.representative_of_byFontTable? othersStocked
      (Selection.checked_ok_iff.mp otherSuccess).2
    have same : selection.style = otherSelection.style :=
      left.eq_of_regular right regrouped.mem_iff regular
    refine ⟨.ofStyle selection.style families, .ofStyle otherSelection.style others, ?_, ?_, same, ?_, ?_⟩
    · intro engine id source drawn
      rw [resolve_fst, Request.resolve_fromFontTable drawn success]
    · intro engine id source drawn
      rw [resolve_fst, Request.resolve_fromFontTable drawn otherSuccess]
    · simp only [Identity.ofStyle, same]
    · simp only [Identity.ofStyle, same]
  · rintro identity other rfl rfl same
    obtain ⟨drawn, success, _⟩ := draw_nearest identity nonempty stocked
    obtain ⟨otherDrawn, otherSuccess, _⟩ := draw_nearest other othersNonempty othersStocked
    exact ⟨drawn, otherDrawn, success, otherSuccess,
      regrouped.matchScore_eq same success otherSuccess⟩

def splitFamilies : List Family :=
  [⟨"Sans", [.plain 700 .upright, .plain 300 .upright]⟩, ⟨"Serif", [.plain 380 .upright]⟩,
    ⟨"Script", [.plain 450 .italic, .plain 300 .upright]⟩]

def mergedFamilies : List Family :=
  [⟨"All", [.plain 450 .italic, .plain 380 .upright, .plain 300 .upright, .plain 300 .upright,
    .plain 700 .upright]⟩]

/-- The wanted style is equally near to two upright variants, and each list has another one of them first. -/
theorem alike_of_regrouped_split :
    splitFamilies ≠ [] ∧ Stocked splitFamilies ∧ mergedFamilies ≠ [] ∧ Stocked mergedFamilies ∧
      Regrouped splitFamilies mergedFamilies ∧
      (∃ variant ∈ splitFamilies.flatMap Family.variants, variant.style.IsRegular) ∧
      (∃ identity other : Identity,
        (initial.resolve .fromFontTable (.ofFamilies splitFamilies) 0).1 = .ok identity ∧
        (initial.resolve .fromFontTable (.ofFamilies mergedFamilies) 0).1 = .ok other ∧
        identity.style = other.style) ∧
      ∃ drawn otherDrawn,
        (Identity.ofStyle ⟨.ofInt 500, .upright⟩ splitFamilies).draw = .ok drawn ∧
        (Identity.ofStyle ⟨.ofInt 500, .upright⟩ mergedFamilies).draw = .ok otherDrawn ∧
        matchScore ⟨.ofInt 500, .upright⟩ drawn.variant.style =
          matchScore ⟨.ofInt 500, .upright⟩ otherDrawn.variant.style := by
  have nonempty : splitFamilies ≠ [] := by decide
  have stocked : Stocked splitFamilies := by decide
  have othersNonempty : mergedFamilies ≠ [] := by decide
  have othersStocked : Stocked mergedFamilies := by decide
  have regrouped : Regrouped splitFamilies mergedFamilies := by decide
  have regular : ∃ variant ∈ splitFamilies.flatMap Family.variants, variant.style.IsRegular := by decide
  obtain ⟨resolves, draws⟩ :=
    alike_of_regrouped nonempty stocked othersNonempty othersStocked regrouped
  obtain ⟨identity, other, left, right, same, _, _⟩ := resolves regular
  exact ⟨nonempty, stocked, othersNonempty, othersStocked, regrouped, regular,
    ⟨identity, other, left initial 0 _ rfl, right initial 0 _ rfl, same⟩, draws _ _ rfl rfl rfl⟩

end Engine

end Typeface
