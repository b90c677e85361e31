import Typeface.Family

/-! The families into which variants are grouped by their names. No variant is lost and none comes from
elsewhere, no family is without variants, and the variant that comes first stays the first. -/

set_option autoImplicit false

namespace Typeface.Family

variable {variants : List Variant} {variant : Variant}

theorem mem_groupByName {family : Family} :
    family ∈ groupByName variants ↔
      family.name ∈ variants.map Variant.groupName ∧
        family.variants = variants.filter (·.groupName = family.name) := by
  simp only [groupByName, List.mem_map (f := fun name : String => Family.mk name _), List.mem_eraseDups]
  constructor
  · rintro ⟨name, member, rfl⟩
    exact ⟨member, rfl⟩
  · rintro ⟨member, same⟩
    exact ⟨family.name, member, by rw [← same]⟩

theorem stocked_groupByName (variants : List Variant) : Stocked (groupByName variants) := by
  intro family member
  obtain ⟨named, members⟩ := mem_groupByName.mp member
  obtain ⟨variant, variantMember, same⟩ := List.mem_map.mp named
  rw [members]
  exact List.ne_nil_of_mem (List.mem_filter.mpr ⟨variantMember, decide_eq_true same⟩)

theorem mem_flatMap_groupByName :
    variant ∈ (groupByName variants).flatMap Family.variants ↔ variant ∈ variants := by
  rw [List.mem_flatMap]
  constructor
  · rintro ⟨family, member, own⟩
    rw [(mem_groupByName.mp member).2] at own
    exact (List.mem_filter.mp own).1
  · intro member
    refine ⟨⟨variant.groupName, variants.filter (·.groupName = variant.groupName)⟩, ?_, ?_⟩
    · exact mem_groupByName.mpr ⟨List.mem_map_of_mem member, rfl⟩
    · exact List.mem_filter.mpr ⟨member, decide_eq_true rfl⟩

theorem head?_flatMap_groupByName (variants : List Variant) :
    ((groupByName variants).flatMap Family.variants).head? = variants.head? := by
  cases variants with
  | nil => rfl
  | cons variant rest => simp [groupByName, List.eraseDups_cons]

end Typeface.Family
