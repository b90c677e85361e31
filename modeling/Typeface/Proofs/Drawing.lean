import Typeface.Engine
import Typeface.Proofs.Listing

/-! What an identity is drawn with. The search through the families finds the first of the nearest of
all variants, and every other way to ask for the nearest variant agrees with it. A variant that the
font table selects is drawn unless one of its slant and its weight grade is declared before it. -/

set_option autoImplicit false

namespace Typeface

theorem matchScore_eq_zero_iff {wanted actual : Style} :
    matchScore wanted actual = 0 ↔
      actual.slant = wanted.slant ∧ actual.weight.grade = wanted.weight.grade := by
  unfold matchScore
  split
  next same => simp only [same, true_and]; omega
  next differ => simp [Ne.symm differ]

/-- What is drawn is the nearest variant, in whichever way the nearest one is asked for. -/
structure DrawsNearest (identity : Identity) (drawn : Selection) : Prop where
  -- Of all variants that are nearest it stands first.
  foremost : IsForemost (fun entry => matchScore identity.style entry.2.style)
    (listing identity.families) drawn.place
  family : identity.families[drawn.familyIndex]? = some drawn.family
  -- The family alone, and one family of all variants, would be drawn with the same.
  within : matchVariant drawn.family identity.style = .ok (drawn.variant, drawn.fakery)
  together : ∀ name, matchVariant ⟨name, identity.families.flatMap Family.variants⟩ identity.style =
    .ok (drawn.variant, drawn.fakery)
  selected : ∀ weight italic, identity.style = .ofNumber weight (.ofItalic italic) →
    ∃ selection, selectVariant identity.families (.given weight) (.given italic) = .ok selection ∧
      selection.place = drawn.place

theorem matchVariant_of_closest? {family : Family} {style : Style} {variant : Variant}
    (found : family.closest? style = some variant) :
    matchVariant family style = .ok (variant, .between style variant.style) := by
  rw [matchVariant, found]

namespace Selection

variable {families : List Family} {style : Style} {selection : Selection}

theorem closest?_of_byStyle? (found : byStyle? families style = some selection) :
    selection.family.closest? style = some selection.variant := by
  obtain ⟨⟨family, index⟩, _, chosen⟩ := List.mem_filterMap.mp (List.minOn?_mem found)
  obtain ⟨variant, closest, rfl⟩ := Option.map_eq_some_iff.mp chosen
  exact closest

theorem closest?_flatMap_of_byStyle? (found : byStyle? families style = some selection)
    (name : String) :
    (Family.mk name (families.flatMap Family.variants)).closest? style = some selection.variant := by
  rw [Family.closest?, minOn?_eq_some_iff_isForemost, ← map_snd_listing]
  exact (isForemost_byStyle? found).map (fun variant : Variant => matchScore style variant.style)
    Prod.snd

end Selection

theorem fakery_of_draw {identity : Identity} {drawn : Selection}
    (success : identity.draw = .ok drawn) :
    drawn.fakery = .between identity.style drawn.variant.style := by
  have ⟨_, found⟩ := Selection.checked_ok_iff.mp success
  obtain ⟨_, _, style⟩ := Selection.mem_among.mp (Selection.mem_among_of_byStyle? found)
  rw [Selection.fakery, style]

theorem drawsNearest_of_draw {identity : Identity} {drawn : Selection}
    (success : identity.draw = .ok drawn) : DrawsNearest identity drawn := by
  have ⟨stocked, found⟩ := Selection.checked_ok_iff.mp success
  obtain ⟨family, _, _⟩ := Selection.mem_among.mp (Selection.mem_among_of_byStyle? found)
  have fakery := fakery_of_draw success
  exact {
    foremost := Selection.isForemost_byStyle? found
    family
    within := by
      rw [fakery]
      exact matchVariant_of_closest? (Selection.closest?_of_byStyle? found)
    together := by
      intro name
      rw [fakery]
      exact matchVariant_of_closest? (Selection.closest?_flatMap_of_byStyle? found name)
    selected := by
      intro weight italic same
      exact ⟨drawn, by rw [← success, Identity.draw, same]; rfl, rfl⟩ }

/-- An identity over families that all have variants is drawn, and with the nearest variant. -/
theorem draw_nearest (identity : Identity) (nonempty : identity.families ≠ [])
    (stocked : Stocked identity.families) :
    ∃ drawn, identity.draw = .ok drawn ∧ DrawsNearest identity drawn := by
  obtain ⟨drawn, success⟩ : ∃ drawn, identity.draw = .ok drawn := by
    rw [Identity.draw, selectStyle_eq_selectVariant]
    exact selectVariant_ok_iff.mpr ⟨nonempty, stocked⟩
  exact ⟨drawn, success, drawsNearest_of_draw success⟩

def tiedIdentity : Identity :=
  .ofStyle ⟨.bold, .upright⟩
    [⟨"Text", [.plain 400 .upright, .plain 650 .upright, .plain 600 .upright]⟩,
      ⟨"Display", [.plain 690 .upright]⟩]

theorem draw_nearest_tied :
    tiedIdentity.families ≠ [] ∧ Stocked tiedIdentity.families ∧
      ∃ drawn, tiedIdentity.draw = .ok drawn ∧ DrawsNearest tiedIdentity drawn ∧
        drawn.place = (0, .plain 650 .upright) := by
  refine ⟨by decide, by decide, ?_⟩
  obtain ⟨drawn, success, nearest⟩ := draw_nearest tiedIdentity (by decide) (by decide)
  refine ⟨drawn, success, nearest, ?_⟩
  have found : tiedIdentity.draw.map Selection.place = .ok (0, .plain 650 .upright) := by
    decide +kernel
  rw [success] at found
  exact Except.ok.inj found

/-- A selection is drawn for the style that its variant declares unless a variant of the same slant
and weight grade is declared before it: among these the score makes no difference. -/
theorem place_eq_iff_of_draw {identity : Identity} {drawn selected : Selection}
    (success : identity.draw = .ok drawn)
    (listed : selected.place ∈ listing identity.families)
    (declared : identity.style = selected.variant.style) :
    drawn.place = selected.place ↔
      ∀ earlier ∈ (listing identity.families).takeWhile (· ≠ selected.place),
        ¬ (earlier.2.style.slant = selected.variant.style.slant ∧
          earlier.2.style.weight.grade = selected.variant.style.weight.grade) := by
  have foremost := (drawsNearest_of_draw success).foremost
  have zero : matchScore identity.style selected.place.2.style = 0 := by
    rw [declared]
    exact matchScore_self _
  have least : ∀ rival ∈ listing identity.families,
      matchScore identity.style selected.place.2.style ≤ matchScore identity.style rival.2.style := by
    intro rival _
    rw [zero]
    exact Nat.zero_le _
  have same : drawn.place = selected.place ↔
      IsForemost (fun entry => matchScore identity.style entry.2.style)
        (listing identity.families) selected.place :=
    ⟨fun same => same ▸ foremost, fun other => foremost.unique other⟩
  rw [same, isForemost_iff_of_le listed least, zero]
  simp only [ne_eq, matchScore_eq_zero_iff, declared]

theorem place_mem_listing_of_byFontTable? {families : List Family} {selection : Selection}
    (found : Selection.byFontTable? families = some selection) :
    selection.place ∈ listing families := by
  have within {choose : Family → Option Variant}
      (own : ∀ family variant, choose family = some variant → variant ∈ family.variants)
      (member : selection ∈ Selection.candidates families choose Variant.style) :
      selection.place ∈ listing families := by
    obtain ⟨⟨family, index⟩, listed, chosen⟩ := List.mem_filterMap.mp member
    obtain ⟨variant, choice, rfl⟩ := Option.map_eq_some_iff.mp chosen
    exact List.mem_flatMap.mpr ⟨_, listed, List.mem_map.mpr ⟨variant, own _ _ choice, rfl⟩⟩
  rw [Selection.byFontTable?, Option.or_eq_some_iff] at found
  rcases found with found | ⟨_, found⟩
  · refine within ?_ (List.maxOn?_mem found)
    intro family variant choice
    exact (List.mem_filter.mp (List.maxOn?_mem choice)).1
  · exact within (fun _ _ => List.mem_of_head?) (List.mem_of_head? found)

/-- The variant that the font table selects is the one that its identity is drawn with exactly if no
variant before it has its slant and its weight grade. -/
theorem draw_byFontTable_iff (engine : Engine) (id : RegistryId) {families : List Family}
    (nonempty : families ≠ []) (stocked : Stocked families) :
    ∃ selected identity drawn,
      selectVariant families .byFontTable .byFontTable = .ok selected ∧
      (engine.resolveFamilies families .byFontTable .byFontTable id).1 = .ok identity ∧
      identity.draw = .ok drawn ∧
      identity.style = selected.variant.style ∧
      (drawn.familyIndex = selected.familyIndex ∧ drawn.variant = selected.variant ↔
        ∀ earlier ∈ (listing families).takeWhile (· ≠ (selected.familyIndex, selected.variant)),
          ¬ (earlier.2.style.slant = selected.variant.style.slant ∧
            earlier.2.style.weight.grade = selected.variant.style.weight.grade)) := by
  obtain ⟨selected, selection⟩ :
      ∃ selection, selectVariant families .byFontTable .byFontTable = .ok selection :=
    selectVariant_ok_iff.mpr ⟨nonempty, stocked⟩
  have ⟨_, found⟩ := Selection.checked_ok_iff.mp selection
  have declared := Selection.style_eq_of_byFontTable? found
  let identity : Identity := .ofStyle selected.style families
  obtain ⟨drawn, success, _⟩ := draw_nearest identity nonempty stocked
  refine ⟨selected, identity, drawn, selection, ?_, success, declared, ?_⟩
  · simp [Engine.resolveFamilies, Engine.resolve, Request.resolve, Source.drawnFrom,
      Source.ofFamilies, selection, Except.bind, Except.map, Engine.traced, identity]
  · rw [← Prod.mk.injEq]
    exact place_eq_iff_of_draw success (place_mem_listing_of_byFontTable? found) declared

/-- Two families, with variants of the same slant and of the same grade as the normal one, but none
that is both and stands before it. -/
def spreadFamilies : List Family :=
  [⟨"Sans", [.plain 700 .upright, .plain 400 .italic]⟩,
    ⟨"Book", [.plain 400 .upright, .plain 450 .upright]⟩]

theorem draw_byFontTable_spread :
    spreadFamilies ≠ [] ∧ Stocked spreadFamilies ∧
      ∃ selected identity drawn,
        selectVariant spreadFamilies .byFontTable .byFontTable = .ok selected ∧
        (Engine.initial.resolveFamilies spreadFamilies .byFontTable .byFontTable 0).1 =
          .ok identity ∧
        identity.draw = .ok drawn ∧
        drawn.familyIndex = selected.familyIndex ∧ drawn.variant = selected.variant := by
  refine ⟨by decide, by decide, ?_⟩
  obtain ⟨selected, identity, drawn, selection, created, success, _, same⟩ :=
    draw_byFontTable_iff .initial 0 (show spreadFamilies ≠ [] by decide) (by decide)
  refine ⟨selected, identity, drawn, selection, created, success, same.mpr ?_⟩
  cases selection
  decide

def bookFamilies : List Family :=
  [⟨"Sans", [.plain 450 .upright, .plain 400 .upright]⟩]

/-- The font table selects the normal variant, and the heavier one is drawn. -/
theorem draw_ne_byFontTable :
    ∃ selected identity drawn,
      selectVariant bookFamilies .byFontTable .byFontTable = .ok selected ∧
      (Engine.initial.resolveFamilies bookFamilies .byFontTable .byFontTable 0).1 = .ok identity ∧
      identity.draw = .ok drawn ∧
      selected.variant = Variant.plain 400 .upright ∧ drawn.variant = Variant.plain 450 .upright :=
  ⟨_, _, _, rfl, rfl, rfl, rfl, rfl⟩

end Typeface
