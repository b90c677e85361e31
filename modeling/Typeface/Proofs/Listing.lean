import Mathlib.Data.Nat.Basic
import Typeface.Proofs.Foremost
import Typeface.Identity

/-! The variants of a list of families in one list. Families come in their order and the variants of
each as declared, so a search family by family, with a search among the findings, is one search of
this list. It fails only for want of a family or of a variant. -/

set_option autoImplicit false

namespace Typeface

def Variant.plain (weight : Int) (slant : Slant) : Variant :=
  ⟨⟨.ofInt weight, slant⟩, none, none, none⟩

/-- The variants with the positions of their families, in the order of declaration. -/
def listing (families : List Family) : List (Nat × Variant) :=
  families.zipIdx.flatMap fun (family, index) => family.variants.map fun variant => (index, variant)

theorem map_snd_listing (families : List Family) :
    (listing families).map Prod.snd = families.flatMap Family.variants := by
  have from_ (start : Nat) :
      ((families.zipIdx start).flatMap fun (family, index) =>
        family.variants.map fun variant => (index, variant)).map Prod.snd =
      families.flatMap Family.variants := by
    induction families generalizing start with
    | nil => rfl
    | cons family rest ih => simp [ih, Function.comp_def]
  exact from_ 0

theorem listing_ne_nil {families : List Family} (nonempty : families ≠ [])
    (stocked : Stocked families) : listing families ≠ [] := by
  obtain ⟨family, rest, rfl⟩ := List.exists_cons_of_ne_nil nonempty
  have := stocked family (by simp)
  simp [listing, this]

namespace Selection

variable {families : List Family} {members : Family → List Variant} {style : Variant → Style}
  {selection : Selection}

def place (selection : Selection) : Nat × Variant := (selection.familyIndex, selection.variant)

def among (families : List Family) (members : Family → List Variant) (style : Variant → Style) :
    List Selection :=
  families.zipIdx.flatMap fun (family, index) =>
    (members family).map fun variant => ⟨style variant, index, family, variant⟩

theorem mem_among :
    selection ∈ among families members style ↔
      families[selection.familyIndex]? = some selection.family ∧
        selection.variant ∈ members selection.family ∧ selection.style = style selection.variant := by
  simp only [among, List.mem_flatMap, List.mem_map, Prod.exists, List.mem_zipIdx_iff_getElem?]
  constructor
  · rintro ⟨family, index, found, variant, member, rfl⟩
    exact ⟨found, member, rfl⟩
  · rintro ⟨found, member, same⟩
    exact ⟨selection.family, selection.familyIndex, found, selection.variant, member, by rw [← same]⟩

theorem mem_candidates {choose : Family → Option Variant} {style : Variant → Style} :
    selection ∈ candidates families choose style ↔
      families[selection.familyIndex]? = some selection.family ∧
        choose selection.family = some selection.variant ∧
          selection.style = style selection.variant := by
  simp only [candidates, List.mem_filterMap, Option.map_eq_some_iff, Prod.exists,
    List.mem_zipIdx_iff_getElem?]
  constructor
  · rintro ⟨family, index, found, variant, chosen, rfl⟩
    exact ⟨found, chosen, rfl⟩
  · rintro ⟨found, chosen, same⟩
    exact ⟨selection.family, selection.familyIndex, found, selection.variant, chosen, by rw [← same]⟩

theorem map_place_among (families : List Family) (style : Variant → Style) :
    (among families Family.variants style).map place = listing families := by
  simp [among, listing, List.map_flatMap, place, Function.comp_def]

/-- Where the choice within each family is the foremost of certain members, the choice among the
candidates is the foremost of all these members. -/
theorem minOn?_candidates {β : Type} [LinearOrder β] (key : Variant → β) (outer : Selection → β)
    (agree : ∀ index family variant, outer ⟨style variant, index, family, variant⟩ = key variant) :
    (candidates families (fun family => (members family).minOn? key) style).minOn? outer =
      (among families members style).minOn? outer := by
  rw [among, ← minOn?_filterMap_minOn?, candidates]
  congr 2
  funext ⟨family, index⟩
  simp only [minOn?_map, agree]

theorem byStyle?_eq (families : List Family) (style : Style) :
    byStyle? families style = (among families Family.variants fun _ => style).minOn?
      fun selection => matchScore style selection.variant.style :=
  minOn?_candidates _ _ fun _ _ _ => rfl

theorem isForemost_byStyle? {style : Style} (found : byStyle? families style = some selection) :
    IsForemost (fun entry => matchScore style entry.2.style) (listing families) selection.place := by
  rw [byStyle?_eq] at found
  rw [← map_place_among families fun _ => style]
  apply IsForemost.map
  exact isForemost_minOn? found

theorem mem_among_of_byStyle? {style : Style} (found : byStyle? families style = some selection) :
    selection ∈ among families Family.variants fun _ => style :=
  List.minOn?_mem (byStyle?_eq families style ▸ found)

theorem exists_byStyle? (nonempty : families ≠ []) (stocked : Stocked families) (style : Style) :
    ∃ selection, byStyle? families style = some selection := by
  cases found : byStyle? families style with
  | some selection => exact ⟨selection, rfl⟩
  | none =>
    rw [byStyle?_eq, minOn?_eq_none_iff] at found
    have : listing families = [] := by
      rw [← map_place_among families fun _ => style, found, List.map_nil]
    exact absurd this (listing_ne_nil nonempty stocked)

theorem exists_byFontTable? (nonempty : families ≠ []) (stocked : Stocked families) :
    ∃ selection, byFontTable? families = some selection := by
  obtain ⟨family, rest, rfl⟩ := List.exists_cons_of_ne_nil nonempty
  obtain ⟨variant, others, declared⟩ := List.exists_cons_of_ne_nil (stocked family (by simp))
  rw [← Option.isSome_iff_exists, byFontTable?, Option.isSome_or, Bool.or_eq_true]
  -- The first variant of the first family stands ready whatever the others declare.
  exact Or.inr (by simp [candidates, declared])

theorem style_eq_of_byFontTable? (found : byFontTable? families = some selection) :
    selection.style = selection.variant.style := by
  rw [byFontTable?, Option.or_eq_some_iff] at found
  rcases found with found | ⟨_, found⟩
  · exact (mem_candidates.mp (List.maxOn?_mem found)).2.2
  · exact (mem_candidates.mp (List.mem_of_head? found)).2.2

end Selection

theorem selectVariant_ok_iff {families : List Family} {weight : Wanted Number}
    {italic : Wanted Bool} :
    (∃ selection, selectVariant families weight italic = .ok selection) ↔
      families ≠ [] ∧ Stocked families := by
  unfold selectVariant
  simp only [Selection.checked_ok_iff]
  constructor
  · rintro ⟨selection, stocked, found⟩
    refine ⟨?_, stocked⟩
    rintro rfl
    cases weight <;> cases italic <;>
      simp [Selection.byStyle?, Selection.byFontTable?, Selection.candidates] at found
  · rintro ⟨nonempty, stocked⟩
    obtain ⟨anchor, found⟩ := Selection.exists_byFontTable? nonempty stocked
    have near := Selection.exists_byStyle? nonempty stocked
    cases weight <;> cases italic <;> simp [stocked, found, near]

theorem selectStyle_eq_selectVariant (families : List Family) (style : Style) :
    selectStyle families style =
      selectVariant families (.given style.weight.toNumber) (.given style.slant.isItalic) := by
  simp [selectStyle, selectVariant, Style.ofNumber]

end Typeface
