import Typeface.Proofs.Discovery

/-! The variant that the font table selects. Of the regular variants the heaviest is the one nearest to
the normal weight, so two nested searches for the greatest weight find the first of the nearest in the order
of declaration, whatever families without a regular variant stand in between. Without a regular variant in
any family the first variant of the first family is selected. -/

set_option autoImplicit false

namespace Typeface

def Weight.distance (left right : Weight) : Nat := ((left.value : Int) - right.value).natAbs

theorem Style.IsRegular.weight_le_iff {left right : Style} (leftRegular : left.IsRegular)
    (rightRegular : right.IsRegular) :
    right.weight.value ≤ left.weight.value ↔
      left.weight.distance .normal ≤ right.weight.distance .normal := by
  have leftBound := leftRegular.2
  have rightBound := rightRegular.2
  simp only [Weight.distance]
  omega

section

variable {α β γ : Type} [LinearOrder β] [LinearOrder γ] {height : α → β} {gap : α → γ} {list : List α}

/-- Where what is higher is nearer, the first of the highest is the first of the nearest. -/
theorem maxOn?_eq_minOn?_of_reverses
    (reverses : ∀ left ∈ list, ∀ right ∈ list, height right ≤ height left ↔ gap left ≤ gap right) :
    list.maxOn? height = list.minOn? gap := by
  induction list with
  | nil => rfl
  | cons head rest ih =>
    have later : rest.maxOn? height = rest.minOn? gap :=
      ih fun left leftMember right rightMember =>
        reverses left (.tail _ leftMember) right (.tail _ rightMember)
    rw [List.maxOn?_cons, List.minOn?_cons, later]
    cases found : rest.minOn? gap with
    | none => rfl
    | some best =>
      have same := reverses head List.mem_cons_self best (.tail _ (List.minOn?_mem found))
      simp only [Option.elim_some]
      by_cases nearer : gap head ≤ gap best
      · rw [maxOn_eq_left (same.mpr nearer), minOn_eq_left nearer]
      · rw [maxOn_eq_right fun higher => nearer (same.mp higher), minOn_eq_right nearer]

end

theorem Family.regular?_eq_minOn? (family : Family) :
    family.regular? = (family.variants.filter fun variant => variant.style.IsRegular).minOn?
      fun variant => variant.style.weight.distance .normal := by
  apply maxOn?_eq_minOn?_of_reverses
  intro left leftMember right rightMember
  have leftRegular := of_decide_eq_true (List.mem_filter.mp leftMember).2
  have rightRegular := of_decide_eq_true (List.mem_filter.mp rightMember).2
  exact leftRegular.weight_le_iff rightRegular

namespace Selection

variable {families : List Family} {selection : Selection}

/-- What the font table should select: a variant that its family has, for the style that it declares. Where
there are regular variants, it is the first of those nearest to the normal weight; otherwise it is the first
variant of the first family. -/
structure IsCanonical (families : List Family) (selection : Selection) : Prop where
  family : families[selection.familyIndex]? = some selection.family
  member : selection.variant ∈ selection.family.variants
  style : selection.style = selection.variant.style
  nearest : (∃ variant ∈ families.flatMap Family.variants, variant.style.IsRegular) →
    IsForemost (fun entry => entry.2.style.weight.distance .normal)
      ((listing families).filter fun entry => entry.2.style.IsRegular) selection.place
  fallback : (∀ variant ∈ families.flatMap Family.variants, ¬ variant.style.IsRegular) →
    selection.familyIndex = 0 ∧ selection.family.variants.head? = some selection.variant

theorem IsCanonical.place_eq {other : Selection} (left : selection.IsCanonical families)
    (right : other.IsCanonical families) : selection.place = other.place := by
  by_cases regular : ∃ variant ∈ families.flatMap Family.variants, variant.style.IsRegular
  · exact (left.nearest regular).unique (right.nearest regular)
  · have irregular : ∀ variant ∈ families.flatMap Family.variants, ¬ variant.style.IsRegular :=
      fun variant member own => regular ⟨variant, member, own⟩
    obtain ⟨leftFirst, leftHead⟩ := left.fallback irregular
    obtain ⟨rightFirst, rightHead⟩ := right.fallback irregular
    have leftFamily := left.family
    have rightFamily := right.family
    rw [leftFirst] at leftFamily
    rw [rightFirst, leftFamily] at rightFamily
    rw [Option.some.inj rightFamily, rightHead] at leftHead
    exact Prod.ext (leftFirst.trans rightFirst.symm) (Option.some.inj leftHead).symm

theorem IsCanonical.unique {other : Selection} (left : selection.IsCanonical families)
    (right : other.IsCanonical families) : selection = other := by
  have samePlace := left.place_eq right
  obtain ⟨family, _, style, _, _⟩ := left
  obtain ⟨otherFamily, _, otherStyle, _, _⟩ := right
  obtain ⟨_, index, _, variant⟩ := selection
  obtain ⟨_, otherIndex, _, otherVariant⟩ := other
  obtain ⟨rfl, rfl⟩ : index = otherIndex ∧ variant = otherVariant := Prod.mk.inj samePlace
  obtain rfl := Option.some.inj (family.symm.trans otherFamily)
  obtain rfl := style.trans otherStyle.symm
  rfl

theorem map_place_among_filter (families : List Family) (keep : Variant → Bool)
    (style : Variant → Style) :
    (among families (fun family => family.variants.filter keep) style).map place =
      (listing families).filter fun entry => keep entry.2 := by
  simp [among, listing, List.map_flatMap, List.filter_flatMap, List.filter_map, place,
    Function.comp_def]

theorem maxOn?_candidates_regular? (families : List Family) :
    ((candidates families Family.regular? Variant.style).maxOn? fun selection =>
        selection.style.weight.value) =
      (among families (fun family => family.variants.filter fun variant => variant.style.IsRegular)
        Variant.style).minOn? fun selection => selection.variant.style.weight.distance .normal := by
  have within : Family.regular? = fun family : Family =>
      (family.variants.filter fun variant => variant.style.IsRegular).minOn?
        fun variant => variant.style.weight.distance .normal := by
    funext family
    exact family.regular?_eq_minOn?
  have across : ((candidates families Family.regular? Variant.style).maxOn? fun selection =>
        selection.style.weight.value) =
      (candidates families Family.regular? Variant.style).minOn? fun selection =>
        selection.variant.style.weight.distance .normal := by
    apply maxOn?_eq_minOn?_of_reverses
    intro left leftMember right rightMember
    obtain ⟨_, leftChosen, leftStyle⟩ := mem_candidates.mp leftMember
    obtain ⟨_, rightChosen, rightStyle⟩ := mem_candidates.mp rightMember
    rw [leftStyle, rightStyle]
    exact (Family.mem_of_regular? leftChosen).2.weight_le_iff (Family.mem_of_regular? rightChosen).2
  rw [across, within]
  apply minOn?_candidates
  intro index family variant
  rfl

theorem isCanonical_of_byFontTable? (stocked : Stocked families)
    (found : byFontTable? families = some selection) : selection.IsCanonical families := by
  have style := style_eq_of_byFontTable? found
  rw [byFontTable?, Option.or_eq_some_iff] at found
  rcases found with found | ⟨none, first⟩
  · obtain ⟨family, chosen, _⟩ := mem_candidates.mp (List.maxOn?_mem found)
    obtain ⟨member, regular⟩ := Family.mem_of_regular? chosen
    refine ⟨family, member, style, ?_, ?_⟩
    · intro _
      rw [maxOn?_candidates_regular?] at found
      rw [← map_place_among_filter families (fun variant => variant.style.IsRegular) Variant.style]
      apply IsForemost.map (fun entry : Nat × Variant => entry.2.style.weight.distance .normal)
      exact isForemost_minOn? found
    · intro irregular
      have listed : selection.variant ∈ families.flatMap Family.variants :=
        List.mem_flatMap.mpr ⟨selection.family, List.mem_of_getElem? family, member⟩
      exact absurd regular (irregular selection.variant listed)
  · obtain ⟨family, chosen, _⟩ := mem_candidates.mp (List.mem_of_head? first)
    refine ⟨family, List.mem_of_head? chosen, style, ?_, ?_⟩
    · rintro ⟨variant, member, regular⟩
      obtain ⟨heaviest, some, _⟩ := exists_maxOn?_candidates_of_regular member regular
      rw [none] at some
      cases some
    · intro _
      obtain ⟨_, _, variant, others, rfl, declared, rfl⟩ :=
        exists_cons_of_head?_candidates stocked first
      exact ⟨rfl, by rw [declared, List.head?_cons]⟩

end Selection

/-- From families that all have variants the font table selects what it should, and nothing else would do. -/
theorem selectVariant_isCanonical {families : List Family} (nonempty : families ≠ [])
    (stocked : Stocked families) :
    ∃ selection, selectVariant families .byFontTable .byFontTable = .ok selection ∧
      selection.IsCanonical families ∧
      ∀ other : Selection, other.IsCanonical families → other = selection := by
  obtain ⟨selection, success⟩ :
      ∃ selection, selectVariant families .byFontTable .byFontTable = .ok selection :=
    selectVariant_ok_iff.mpr ⟨nonempty, stocked⟩
  have canonical := Selection.isCanonical_of_byFontTable? stocked
    (Selection.checked_ok_iff.mp success).2
  exact ⟨selection, success, canonical, fun other alike => alike.unique canonical⟩

/-- Three variants are equally near to the normal weight. The first family has no regular variant, and the
second one declares a lighter variant before its nearest ones. -/
def layeredFamilies : List Family :=
  [⟨"Poster", [.plain 450 .upright, .plain 400 .italic]⟩,
    ⟨"Sans", [.plain 300 .upright, { Variant.plain 380 .upright with fileName := some "Sans.ttf" },
      { Variant.plain 380 .upright with fileName := some "SansAlt.ttf" }]⟩,
    ⟨"Serif", [.plain 380 .upright]⟩]

def heavyFamilies : List Family :=
  [⟨"Script", [.plain 350 .italic, .plain 700 .upright]⟩, ⟨"Poster", [.plain 401 .upright]⟩]

theorem selectVariant_isCanonical_layered :
    layeredFamilies ≠ [] ∧ Stocked layeredFamilies ∧ heavyFamilies ≠ [] ∧ Stocked heavyFamilies ∧
      (∃ selection, selectVariant layeredFamilies .byFontTable .byFontTable = .ok selection ∧
        selection.IsCanonical layeredFamilies ∧ selection.familyIndex = 1 ∧
        selection.variant.fileName = some "Sans.ttf") ∧
      ∃ selection, selectVariant heavyFamilies .byFontTable .byFontTable = .ok selection ∧
        selection.IsCanonical heavyFamilies ∧ selection.style = ⟨.ofInt 350, .italic⟩ := by
  have layered : Stocked layeredFamilies := by decide
  have heavy : Stocked heavyFamilies := by decide
  obtain ⟨selection, success, canonical, _⟩ :=
    selectVariant_isCanonical (List.cons_ne_nil _ _) layered
  obtain ⟨other, otherSuccess, otherCanonical, _⟩ :=
    selectVariant_isCanonical (List.cons_ne_nil _ _) heavy
  refine ⟨List.cons_ne_nil _ _, layered, List.cons_ne_nil _ _, heavy,
    ⟨selection, success, canonical, ?_⟩, other, otherSuccess, otherCanonical, ?_⟩
  · cases success
    exact ⟨rfl, rfl⟩
  · cases otherSuccess
    rfl

end Typeface
