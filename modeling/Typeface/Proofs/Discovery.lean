import Typeface.Proofs.Grouping
import Typeface.Proofs.Listing
import Typeface.Proofs.Undisturbed

/-! What the fonts that are found lead to at the start. One style stands for a list of variants: that of
the heaviest regular variant, or else that of the first one. The list determines it, and grouping the
variants does not change it, since no variant is lost and the first one stays the first. -/

set_option autoImplicit false

namespace Typeface

/-- The style is the one that stands for the variants. -/
structure Representative (variants : List Variant) (style : Style) : Prop where
  declared : ∃ variant ∈ variants, variant.style = style
  heaviest : ∀ variant ∈ variants, variant.style.IsRegular →
    style.IsRegular ∧ variant.style.weight.value ≤ style.weight.value
  fallback : (∀ variant ∈ variants, ¬ variant.style.IsRegular) →
    variants.head?.map Variant.style = some style

namespace Representative

variable {variants grouped : List Variant} {style other : Style}

theorem of_regular (declared : ∃ variant ∈ variants, variant.style = style)
    (regular : style.IsRegular)
    (greatest : ∀ variant ∈ variants, variant.style.IsRegular →
      variant.style.weight.value ≤ style.weight.value) : Representative variants style where
  declared := declared
  heaviest := fun variant member own => ⟨regular, greatest variant member own⟩
  fallback := by
    intro irregular
    obtain ⟨variant, member, rfl⟩ := declared
    exact absurd regular (irregular variant member)

theorem of_head {variant : Variant} (first : variants.head? = some variant)
    (irregular : ∀ variant ∈ variants, ¬ variant.style.IsRegular) :
    Representative variants variant.style where
  declared := ⟨variant, List.mem_of_head? first, rfl⟩
  heaviest := fun other member regular => absurd regular (irregular other member)
  fallback := fun _ => by rw [first, Option.map_some]

theorem eq_of_regular {others : List Variant} (left : Representative variants style)
    (right : Representative others other) (members : ∀ variant, variant ∈ variants ↔ variant ∈ others)
    (regular : ∃ variant ∈ variants, variant.style.IsRegular) : style = other := by
  obtain ⟨variant, member, regular⟩ := regular
  have leftRegular := (left.heaviest variant member regular).1
  have rightRegular := (right.heaviest variant ((members variant).mp member) regular).1
  -- Each of the two styles is declared, so each is at most as heavy as the other.
  obtain ⟨first, firstMember, rfl⟩ := left.declared
  obtain ⟨second, secondMember, rfl⟩ := right.declared
  have below := (right.heaviest first ((members first).mp firstMember) leftRegular).2
  have above := (left.heaviest second ((members second).mpr secondMember) rightRegular).2
  have weights := Weight.ext (Nat.le_antisymm below above)
  have slants := leftRegular.1.trans rightRegular.1.symm
  exact congrArg₂ Style.mk weights slants

theorem unique (left : Representative variants style) (right : Representative variants other) :
    style = other := by
  by_cases regular : ∃ variant ∈ variants, variant.style.IsRegular
  · exact left.eq_of_regular right (fun _ => Iff.rfl) regular
  · have irregular : ∀ variant ∈ variants, ¬ variant.style.IsRegular :=
      fun variant member own => regular ⟨variant, member, own⟩
    exact Option.some.inj ((left.fallback irregular).symm.trans (right.fallback irregular))

theorem of_same_members (representative : Representative grouped style)
    (members : ∀ variant, variant ∈ grouped ↔ variant ∈ variants)
    (first : grouped.head? = variants.head?) : Representative variants style := by
  obtain ⟨declared, heaviest, fallback⟩ := representative
  simp only [members, first] at declared heaviest fallback
  exact ⟨declared, heaviest, fallback⟩

end Representative

theorem exists_maxOn? {α : Type} (key : α → Nat) {list : List α} {element : α}
    (member : element ∈ list) :
    ∃ greatest, list.maxOn? key = some greatest ∧ key element ≤ key greatest :=
  ⟨_, (Option.some_get _).symm, List.le_apply_get_maxOn?_of_mem member⟩

namespace Family

variable {family : Family} {variant : Variant}

theorem mem_of_regular? (found : family.regular? = some variant) :
    variant ∈ family.variants ∧ variant.style.IsRegular := by
  have member := List.mem_filter.mp (List.maxOn?_mem found)
  exact ⟨member.1, of_decide_eq_true member.2⟩

theorem exists_regular? (member : variant ∈ family.variants) (regular : variant.style.IsRegular) :
    ∃ heaviest, family.regular? = some heaviest ∧
      variant.style.weight.value ≤ heaviest.style.weight.value :=
  exists_maxOn? _ (List.mem_filter.mpr ⟨member, decide_eq_true regular⟩)

end Family

namespace Selection

variable {families : List Family} {selection : Selection}

theorem exists_candidate_of_regular {variant : Variant}
    (member : variant ∈ families.flatMap Family.variants) (regular : variant.style.IsRegular) :
    ∃ candidate ∈ candidates families Family.regular? Variant.style,
      variant.style.weight.value ≤ candidate.style.weight.value := by
  obtain ⟨family, familyMember, own⟩ := List.mem_flatMap.mp member
  obtain ⟨index, found⟩ := List.getElem?_of_mem familyMember
  obtain ⟨heaviest, chosen, heavier⟩ := family.exists_regular? own regular
  exact ⟨⟨heaviest.style, index, family, heaviest⟩, mem_candidates.mpr ⟨found, chosen, rfl⟩, heavier⟩

theorem exists_maxOn?_candidates_of_regular {variant : Variant}
    (member : variant ∈ families.flatMap Family.variants) (regular : variant.style.IsRegular) :
    ∃ heaviest, ((candidates families Family.regular? Variant.style).maxOn? fun selection =>
        selection.style.weight.value) = some heaviest ∧
      variant.style.weight.value ≤ heaviest.style.weight.value := by
  obtain ⟨candidate, candidateMember, within⟩ := exists_candidate_of_regular member regular
  obtain ⟨heaviest, found, across⟩ := exists_maxOn?
    (fun selection : Selection => selection.style.weight.value) candidateMember
  exact ⟨heaviest, found, within.trans across⟩

theorem exists_cons_of_head?_candidates (stocked : Stocked families)
    (first : (candidates families (·.variants.head?) Variant.style).head? = some selection) :
    ∃ family rest variant others, families = family :: rest ∧ family.variants = variant :: others ∧
      selection = ⟨variant.style, 0, family, variant⟩ := by
  cases families with
  | nil => cases first
  | cons family rest =>
    obtain ⟨variant, others, declared⟩ := List.exists_cons_of_ne_nil
      (stocked family List.mem_cons_self)
    refine ⟨family, rest, variant, others, rfl, declared, ?_⟩
    simpa [candidates, declared, eq_comm] using first

theorem head?_flatMap_of_candidates (stocked : Stocked families)
    (first : (candidates families (·.variants.head?) Variant.style).head? = some selection) :
    (families.flatMap Family.variants).head? = some selection.variant := by
  obtain ⟨family, rest, variant, others, rfl, declared, rfl⟩ :=
    exists_cons_of_head?_candidates stocked first
  simp [declared]

theorem representative_of_byFontTable? (stocked : Stocked families)
    (found : byFontTable? families = some selection) :
    Representative (families.flatMap Family.variants) selection.style := by
  have same := style_eq_of_byFontTable? found
  rw [byFontTable?, Option.or_eq_some_iff] at found
  rcases found with found | ⟨none, first⟩
  · obtain ⟨listed, chosen, _⟩ := mem_candidates.mp (List.maxOn?_mem found)
    obtain ⟨own, regular⟩ := Family.mem_of_regular? chosen
    have member : selection.variant ∈ families.flatMap Family.variants :=
      List.mem_flatMap.mpr ⟨selection.family, List.mem_of_getElem? listed, own⟩
    refine .of_regular ⟨selection.variant, member, same.symm⟩ (same ▸ regular) ?_
    intro rival rivalMember rivalRegular
    obtain ⟨heaviest, again, heavier⟩ := exists_maxOn?_candidates_of_regular rivalMember rivalRegular
    obtain rfl : selection = heaviest := Option.some.inj (found.symm.trans again)
    exact heavier
  · rw [same]
    refine .of_head (head?_flatMap_of_candidates stocked first) ?_
    intro variant member regular
    obtain ⟨heaviest, some, _⟩ := exists_maxOn?_candidates_of_regular member regular
    rw [none] at some
    cases some

end Selection

namespace Family

theorem groupByName_ne_nil {variants : List Variant} (nonempty : variants ≠ []) :
    groupByName variants ≠ [] := by
  intro none
  have first := head?_flatMap_groupByName variants
  rw [none] at first
  exact nonempty (List.head?_eq_none_iff.mp first.symm)

theorem exists_selectVariant_groupByName {variants : List Variant} (nonempty : variants ≠ []) :
    ∃ selection, selectVariant (groupByName variants) .byFontTable .byFontTable = .ok selection ∧
      Representative variants selection.style := by
  have stocked := stocked_groupByName variants
  obtain ⟨selection, success⟩ :
      ∃ selection, selectVariant (groupByName variants) .byFontTable .byFontTable = .ok selection :=
    selectVariant_ok_iff.mpr ⟨groupByName_ne_nil nonempty, stocked⟩
  have ⟨_, found⟩ := Selection.checked_ok_iff.mp success
  refine ⟨selection, success, ?_⟩
  exact (Selection.representative_of_byFontTable? stocked found).of_same_members
    (fun _ => mem_flatMap_groupByName) (head?_flatMap_groupByName variants)

end Family

namespace Engine

theorem installDefault_of_resolve {engine : Engine} {id : RegistryId} {families : List Family}
    {identity : Identity} (silent : (engine.registry id).listeners = [])
    (resolved : (engine.resolve .fromFontTable (.ofFamilies families) id).1 = .ok identity) :
    ∃ after, engine.installDefault families id = (.ok identity, after) ∧
      after.resolveDefault none id = .ok identity := by
  have undisturbed := engine.undisturbed_resolve .fromFontTable (.ofFamilies families) id
  obtain ⟨middle, found⟩ :
      ∃ middle, engine.resolve .fromFontTable (.ofFamilies families) id = (.ok identity, middle) :=
    ⟨_, Prod.ext resolved rfl⟩
  rw [found] at undisturbed
  have quiet : (middle.registry id).listeners = [] := by rw [undisturbed.registry, silent]
  simp only [installDefault, found]
  refine ⟨_, rfl, ?_⟩
  rw [resolveDefault, (undisturbed_write _ _ _ _ _).registry, registry_setContent,
    Registry.set_of_listeners_eq_nil quiet]
  rfl

/-- Where a registry has no listeners, the variants found lead to a default that has the style that stands
for them, whatever their names are. Without variants the installation fails and changes nothing. -/
theorem installDefault_groupByName {engine : Engine} {id : RegistryId}
    (silent : (engine.registry id).listeners = []) (variants : List Variant) :
    (variants ≠ [] → ∃ identity after,
      engine.installDefault (Family.groupByName variants) id = (.ok identity, after) ∧
      after.resolveDefault none id = .ok identity ∧
      Representative variants identity.style ∧
      identity.baseWeight = identity.style.weight.value ∧
      identity.styleClass = identity.style.styleClass) ∧
    (variants = [] →
      engine.installDefault (Family.groupByName variants) id = (.error .noFamilies, engine)) := by
  constructor
  · intro nonempty
    obtain ⟨selection, success, representative⟩ := Family.exists_selectVariant_groupByName nonempty
    have resolved : (engine.resolve .fromFontTable (.ofFamilies (Family.groupByName variants)) id).1 =
        .ok (.ofStyle selection.style (Family.groupByName variants)) := by
      refine (engine.resolveFamilies_fst _ .byFontTable .byFontTable id).trans ?_
      rw [success]
      rfl
    obtain ⟨after, installed, held⟩ := installDefault_of_resolve silent resolved
    exact ⟨_, after, installed, held, representative, rfl, rfl⟩
  · rintro rfl
    rfl

/-- Upright and italic variants whose families are missing, blank or named with blanks at the ends. -/
def scatteredVariants : List Variant :=
  [⟨⟨.bold, .upright⟩, none, none, none⟩, ⟨⟨.ofInt 350, .upright⟩, some " Sans ", none, none⟩,
    ⟨⟨.normal, .italic⟩, some "  ", none, none⟩, ⟨⟨.ofInt 380, .upright⟩, some "Sans", none, none⟩]

theorem installDefault_groupByName_scattered :
    (Engine.initial.registry sharedRegistry).listeners = [] ∧ scatteredVariants ≠ [] ∧
      (∃ identity after,
        Engine.initial.installDefault (Family.groupByName scatteredVariants) sharedRegistry =
          (.ok identity, after) ∧
        after.resolveDefault none sharedRegistry = .ok identity ∧
        identity.style = ⟨.ofInt 380, .upright⟩) ∧
      Engine.initial.installDefault (Family.groupByName []) sharedRegistry =
        (.error .noFamilies, .initial) := by
  have silent : (Engine.initial.registry sharedRegistry).listeners = [] := rfl
  have some : scatteredVariants ≠ [] := List.cons_ne_nil _ _
  obtain ⟨identity, after, installed, held, representative, _, _⟩ :=
    (installDefault_groupByName silent scatteredVariants).1 some
  have expected : Representative scatteredVariants ⟨.ofInt 380, .upright⟩ :=
    .of_regular (by decide) (by decide) (by decide)
  exact ⟨silent, some, ⟨identity, after, installed, held, representative.unique expected⟩,
    (installDefault_groupByName silent []).2 rfl⟩

end Engine

end Typeface
