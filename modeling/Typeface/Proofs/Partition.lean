import Mathlib.Data.List.Basic
import Mathlib.Data.List.Induction
import Typeface.Proofs.Grouping
import Typeface.Proofs.Trimming

/-! The grouping of variants as a partition. Variants come one by one, and each joins the family of its name or
starts one after all others; so names stand in the order in which they first occur, and each family has the
variants of its name in the given order. This determines the families, and since the families in turn list
their variants in such an order, grouping that list again gives the same families. -/

set_option autoImplicit false

namespace Typeface

/-- A variant is filed under its family name without the blanks at the ends, or under the common name where
nothing is left of it. -/
inductive Variant.FiledUnder (variant : Variant) : String → Prop where
  | own (given name : String) (named : variant.familyName = some given)
      (strips : Text.Strips given.toList name.toList) (remains : name.toList ≠ []) :
      FiledUnder variant name
  | blank (given : String) (named : variant.familyName = some given)
      (blank : ∀ character ∈ given.toList, Text.isBlank character = true) :
      FiledUnder variant unknownFamily
  | missing (unnamed : variant.familyName = none) : FiledUnder variant unknownFamily

/-- The families hold the variants, each under its name: the names in the order in which they first occur, and
under each name its variants in the given order. -/
structure Grouped (variants : List Variant) (families : List Family) : Prop where
  members : ∀ family ∈ families,
    family.variants = variants.filter fun variant => variant.groupName = family.name
  stocked : Stocked families
  complete : ∀ variant ∈ variants, variant.groupName ∈ families.map Family.name
  ordered : (families.map Family.name).Pairwise fun earlier later =>
    (variants.map Variant.groupName).idxOf earlier < (variants.map Variant.groupName).idxOf later

namespace Variant

variable {variant : Variant} {name : String}

theorem filedUnder_groupName (variant : Variant) : variant.FiledUnder variant.groupName := by
  unfold groupName
  cases named : variant.familyName with
  | none => exact .missing named
  | some given =>
    rw [Option.getD_some]
    have strips := Text.strips_trim given.toList
    cases found : Text.trim given.toList with
    | nil => exact .blank given named (Text.trim_eq_nil_iff.mp found)
    | cons first rest =>
      refine .own given (.ofList (first :: rest)) named ?_ ?_
      · rwa [String.toList_ofList, ← found]
      · rw [String.toList_ofList]
        exact List.cons_ne_nil first rest

theorem filedUnder_iff : variant.FiledUnder name ↔ variant.groupName = name := by
  constructor
  · intro filed
    cases filed with
    | own given name named strips remains =>
      unfold groupName
      rw [named, Option.getD_some, strips.trim_eq]
      split
      next none => exact absurd none remains
      next => exact String.ofList_toList
    | blank given named blank =>
      rw [groupName, named, Option.getD_some, Text.trim_of_blank blank]
    | missing unnamed =>
      rw [groupName, unnamed]
      rfl
  · rintro rfl
    exact variant.filedUnder_groupName

theorem FiledUnder.exists_not_blank (filed : variant.FiledUnder name) :
    ∃ character ∈ name.toList, Text.isBlank character = false := by
  have unknown : ∃ character ∈ unknownFamily.toList, Text.isBlank character = false :=
    ⟨'U', by decide, by decide⟩
  cases filed with
  | own given name named strips remains =>
    obtain ⟨character, rest, split⟩ := List.exists_cons_of_ne_nil remains
    have first := strips.first character (by rw [split, List.head?_cons])
    exact ⟨character, by simp [split], first⟩
  | blank => exact unknown
  | missing => exact unknown

end Variant

namespace Family

def join (family : Family) (variant : Variant) : Family :=
  if family.name = variant.groupName then { family with variants := family.variants ++ [variant] }
  else family

def file (families : List Family) (variant : Variant) : List Family :=
  if variant.groupName ∈ families.map Family.name then families.map (·.join variant)
  else families ++ [⟨variant.groupName, [variant]⟩]

section

variable {families : List Family} {variant : Variant}

@[simp] theorem name_join (family : Family) (variant : Variant) :
    (family.join variant).name = family.name := by
  unfold join
  split <;> rfl

theorem variants_join (family : Family) (variant : Variant) :
    (family.join variant).variants =
      family.variants ++ [variant].filter fun variant => variant.groupName = family.name := by
  unfold join
  split
  next same => simp [same]
  next other => simp [Ne.symm other]

theorem map_name_join (families : List Family) (variant : Variant) :
    (families.map (·.join variant)).map Family.name = families.map Family.name := by
  simp [Function.comp_def]

theorem map_join_of_not_mem (new : variant.groupName ∉ families.map Family.name) :
    families.map (·.join variant) = families := by
  conv_rhs => rw [← List.map_id families]
  apply List.map_congr_left
  intro family member
  have other : family.name ≠ variant.groupName :=
    fun same => new (same ▸ List.mem_map_of_mem member)
  exact if_neg other

end

end Family

namespace Grouped

variable {variants : List Variant} {families others : List Family}

theorem nodup_names (grouped : Grouped variants families) : (families.map Family.name).Nodup := by
  apply grouped.ordered.imp
  intro earlier later before same
  exact absurd before (same ▸ Nat.lt_irrefl _)

theorem own (grouped : Grouped variants families) {family : Family} (member : family ∈ families)
    {variant : Variant} (listed : variant ∈ family.variants) : variant.groupName = family.name := by
  rw [grouped.members family member] at listed
  exact of_decide_eq_true (List.mem_filter.mp listed).2

theorem mem_names_iff (grouped : Grouped variants families) {name : String} :
    name ∈ families.map Family.name ↔ name ∈ variants.map Variant.groupName := by
  constructor
  · intro member
    obtain ⟨family, familyMember, rfl⟩ := List.mem_map.mp member
    obtain ⟨variant, listed⟩ := List.exists_mem_of_ne_nil _ (grouped.stocked family familyMember)
    have named := grouped.own familyMember listed
    rw [grouped.members family familyMember] at listed
    exact List.mem_map.mpr ⟨variant, (List.mem_filter.mp listed).1, named⟩
  · intro member
    obtain ⟨variant, variantMember, rfl⟩ := List.mem_map.mp member
    exact grouped.complete variant variantMember

theorem eq_map_names (grouped : Grouped variants families) :
    families = (families.map Family.name).map fun name =>
      ⟨name, variants.filter fun variant => variant.groupName = name⟩ := by
  conv_lhs => rw [← List.map_id families]
  rw [List.map_map]
  apply List.map_congr_left
  intro family member
  rw [Function.comp_apply, ← grouped.members family member]
  rfl

theorem unique (left : Grouped variants families) (right : Grouped variants others) :
    families = others := by
  have alike : (families.map Family.name).Perm (others.map Family.name) := by
    rw [List.perm_ext_iff_of_nodup left.nodup_names right.nodup_names]
    intro name
    rw [left.mem_names_iff, right.mem_names_iff]
  have names : families.map Family.name = others.map Family.name := by
    refine alike.eq_of_pairwise ?_ left.ordered right.ordered
    intro one other _ _ before after
    exact absurd (Nat.lt_trans before after) (Nat.lt_irrefl _)
  rw [left.eq_map_names, right.eq_map_names, names]

theorem variants_of_mem_map_join (grouped : Grouped variants families) (variant : Variant)
    {family : Family} (member : family ∈ families.map (·.join variant)) :
    family.variants ≠ [] ∧
      family.variants = (variants ++ [variant]).filter fun other => other.groupName = family.name := by
  obtain ⟨former, formerMember, rfl⟩ := List.mem_map.mp member
  rw [Family.variants_join, Family.name_join, List.filter_append, ← grouped.members former formerMember]
  exact ⟨List.append_ne_nil_of_left_ne_nil (grouped.stocked former formerMember) _, rfl⟩

theorem idxOf_lt_idxOf_append {names : List String} {earlier later : String} (occurs : earlier ∈ names)
    (fresh : later ∉ names) (rest : List String) :
    (names ++ rest).idxOf earlier < (names ++ rest).idxOf later := by
  rw [List.idxOf_append_of_mem occurs, List.idxOf_append_of_notMem fresh]
  exact Nat.lt_add_right _ (List.idxOf_lt_length_of_mem occurs)

theorem ordered_append (grouped : Grouped variants families) (rest : List Variant) :
    (families.map Family.name).Pairwise fun earlier later =>
      ((variants ++ rest).map Variant.groupName).idxOf earlier <
        ((variants ++ rest).map Variant.groupName).idxOf later := by
  apply grouped.ordered.imp_of_mem
  intro earlier later earlierMember laterMember before
  rw [List.map_append, List.idxOf_append_of_mem (grouped.mem_names_iff.mp earlierMember),
    List.idxOf_append_of_mem (grouped.mem_names_iff.mp laterMember)]
  exact before

theorem join (grouped : Grouped variants families) {variant : Variant}
    (known : variant.groupName ∈ families.map Family.name) :
    Grouped (variants ++ [variant]) (families.map (·.join variant)) where
  members := fun _ member => (grouped.variants_of_mem_map_join variant member).2
  stocked := fun _ member => (grouped.variants_of_mem_map_join variant member).1
  complete := by
    rw [Family.map_name_join, List.forall_mem_append, List.forall_mem_singleton]
    exact ⟨grouped.complete, known⟩
  ordered := by
    rw [Family.map_name_join]
    exact grouped.ordered_append [variant]

theorem start (grouped : Grouped variants families) {variant : Variant}
    (new : variant.groupName ∉ families.map Family.name) :
    Grouped (variants ++ [variant]) (families ++ [⟨variant.groupName, [variant]⟩]) := by
  have fresh : variant.groupName ∉ variants.map Variant.groupName :=
    fun member => new (grouped.mem_names_iff.mpr member)
  have former : ∀ family ∈ families, family.variants ≠ [] ∧ family.variants =
      (variants ++ [variant]).filter fun other => other.groupName = family.name := by
    intro family member
    apply grouped.variants_of_mem_map_join variant
    rwa [Family.map_join_of_not_mem new]
  refine ⟨?_, ?_, ?_, ?_⟩
  · rw [List.forall_mem_append, List.forall_mem_singleton]
    refine ⟨fun family member => (former family member).2, ?_⟩
    have none : (variants.filter fun other => other.groupName = variant.groupName) = [] := by
      rw [List.filter_eq_nil_iff]
      intro other member same
      exact fresh (of_decide_eq_true same ▸ List.mem_map_of_mem member)
    simp [List.filter_append, none]
  · rw [Stocked, List.forall_mem_append, List.forall_mem_singleton]
    exact ⟨fun family member => (former family member).1, List.cons_ne_nil _ _⟩
  · rw [List.map_append, List.forall_mem_append, List.forall_mem_singleton]
    exact ⟨fun other member => List.mem_append_left _ (grouped.complete other member),
      List.mem_append_right _ List.mem_cons_self⟩
  · have names : (families ++ [Family.mk variant.groupName [variant]]).map Family.name =
        families.map Family.name ++ [variant.groupName] := List.map_append
    rw [names, List.pairwise_append]
    refine ⟨grouped.ordered_append [variant], List.pairwise_singleton _ _, ?_⟩
    intro earlier member later last
    obtain rfl : later = variant.groupName := List.mem_singleton.mp last
    rw [List.map_append]
    exact idxOf_lt_idxOf_append (grouped.mem_names_iff.mp member) fresh _

theorem file (grouped : Grouped variants families) (variant : Variant) :
    Grouped (variants ++ [variant]) (Family.file families variant) := by
  unfold Family.file
  split
  next known => exact grouped.join known
  next new => exact grouped.start new

theorem foldl (grouped : Grouped variants families) (rest : List Variant) :
    Grouped (variants ++ rest) (rest.foldl Family.file families) := by
  induction rest generalizing variants families with
  | nil => rwa [List.append_nil]
  | cons variant rest ih =>
    have next := ih (grouped.file variant)
    rwa [List.append_assoc] at next

theorem of_foldl (variants : List Variant) : Grouped variants (variants.foldl Family.file []) := by
  have none : Grouped [] [] := ⟨by simp, by simp [Stocked], by simp, .nil⟩
  exact none.foldl variants

end Grouped

namespace Family

theorem map_name_file (families : List Family) (variant : Variant) :
    (file families variant).map name =
      if variant.groupName ∈ families.map name then families.map name
      else families.map name ++ [variant.groupName] := by
  unfold file
  split
  · exact map_name_join families variant
  · exact List.map_append

theorem map_name_foldl (variants : List Variant) :
    (variants.foldl file []).map name = (variants.map Variant.groupName).eraseDups := by
  induction variants using List.reverseRecOn with
  | nil => rfl
  | append_singleton rest variant ih =>
    rw [List.foldl_append, List.foldl_cons, List.foldl_nil, map_name_file, ih, List.map_append,
      List.eraseDups_append]
    simp only [List.mem_eraseDups, List.map_cons, List.map_nil, List.removeAll, List.filter_cons,
      List.elem_eq_mem]
    split
    next known => simp [known]
    next new => simp [new, List.eraseDups_cons]

/-- The families come about when the variants are filed one after the other. -/
theorem groupByName_eq_foldl (variants : List Variant) :
    groupByName variants = variants.foldl file [] := by
  rw [(Grouped.of_foldl variants).eq_map_names, map_name_foldl, groupByName]

theorem grouped_groupByName (variants : List Variant) : Grouped variants (groupByName variants) := by
  rw [groupByName_eq_foldl]
  exact .of_foldl variants

theorem filter_filter_ne {name later : String} (other : later ≠ name) (variants : List Variant) :
    ((variants.filter fun variant => !decide (variant.groupName = name)).filter fun variant =>
        variant.groupName = later) =
      variants.filter fun variant => variant.groupName = later := by
  rw [List.filter_filter]
  apply List.filter_congr
  intro variant _
  by_cases own : variant.groupName = later <;> simp [own, other]

theorem flatMap_filter_perm {names : List String} (distinct : names.Nodup) {variants : List Variant}
    (named : ∀ variant ∈ variants, variant.groupName ∈ names) :
    (names.flatMap fun name => variants.filter fun variant => variant.groupName = name).Perm
      variants := by
  induction names generalizing variants with
  | nil =>
    cases variants with
    | nil => exact .nil
    | cons variant rest => cases named variant List.mem_cons_self
  | cons name rest ih =>
    obtain ⟨new, distinct⟩ := List.nodup_cons.mp distinct
    have elsewhere : ∀ variant ∈ variants.filter fun variant => !decide (variant.groupName = name),
        variant.groupName ∈ rest := by
      intro variant member
      obtain ⟨listed, other⟩ := List.mem_filter.mp member
      exact (List.mem_cons.mp (named variant listed)).resolve_left (by simpa using other)
    have later := ih distinct elsewhere
    -- Under the later names the variants of the first one do not occur.
    rw [List.flatMap_congr fun later member =>
      filter_filter_ne (ne_of_mem_of_not_mem member new) variants] at later
    rw [List.flatMap_cons]
    exact (later.append_left _).trans (List.filter_append_perm _ _)

end Family

theorem Grouped.perm {variants : List Variant} {families : List Family}
    (grouped : Grouped variants families) : (families.flatMap Family.variants).Perm variants := by
  rw [grouped.eq_map_names, List.flatMap_map]
  exact Family.flatMap_filter_perm grouped.nodup_names grouped.complete

/-- Families of different names, each with variants of its own name only. -/
structure Tidy (families : List Family) : Prop where
  distinct : (families.map Family.name).Nodup
  stocked : Stocked families
  own : ∀ family ∈ families, ∀ variant ∈ family.variants, variant.groupName = family.name

theorem Grouped.tidy {variants : List Variant} {families : List Family}
    (grouped : Grouped variants families) : Tidy families :=
  ⟨grouped.nodup_names, grouped.stocked, fun _ member _ listed => grouped.own member listed⟩

namespace Tidy

variable {families rest : List Family} {family head : Family}

theorem tail (tidy : Tidy (head :: rest)) : Tidy rest where
  distinct := (List.nodup_cons.mp tidy.distinct).2
  stocked := fun family member => tidy.stocked family (.tail _ member)
  own := fun family member => tidy.own family (.tail _ member)

theorem ne_of_mem_tail (tidy : Tidy (head :: rest)) {name : String}
    (member : name ∈ rest.map Family.name) : name ≠ head.name := by
  rintro rfl
  exact (List.nodup_cons.mp tidy.distinct).1 member

theorem groupName_mem (tidy : Tidy families) {variant : Variant}
    (member : variant ∈ families.flatMap Family.variants) :
    variant.groupName ∈ families.map Family.name := by
  obtain ⟨family, familyMember, listed⟩ := List.mem_flatMap.mp member
  rw [tidy.own family familyMember variant listed]
  exact List.mem_map_of_mem familyMember

theorem filter_flatMap (tidy : Tidy families) (member : family ∈ families) :
    ((families.flatMap Family.variants).filter fun variant => variant.groupName = family.name) =
      family.variants := by
  induction families with
  | nil => cases member
  | cons head rest ih =>
    have own := tidy.own head List.mem_cons_self
    rw [List.flatMap_cons, List.filter_append]
    rcases List.mem_cons.mp member with same | member
    · rw [same]
      have kept : (head.variants.filter fun variant => variant.groupName = head.name) =
          head.variants :=
        List.filter_eq_self.mpr fun variant listed => decide_eq_true (own variant listed)
      have none : ((rest.flatMap Family.variants).filter fun variant =>
          variant.groupName = head.name) = [] := by
        rw [List.filter_eq_nil_iff]
        intro variant listed same
        exact tidy.ne_of_mem_tail (tidy.tail.groupName_mem listed) (of_decide_eq_true same)
      rw [kept, none, List.append_nil]
    · have none : (head.variants.filter fun variant => variant.groupName = family.name) = [] := by
        rw [List.filter_eq_nil_iff]
        intro variant listed same
        have other := tidy.ne_of_mem_tail (List.mem_map_of_mem member)
        exact other ((of_decide_eq_true same).symm.trans (own variant listed))
      rw [none, List.nil_append, ih tidy.tail member]

theorem idxOf_cons (tidy : Tidy (head :: rest)) {later : String}
    (member : later ∈ rest.map Family.name) :
    (((head :: rest).flatMap Family.variants).map Variant.groupName).idxOf later =
      head.variants.length + ((rest.flatMap Family.variants).map Variant.groupName).idxOf later := by
  have absent : later ∉ head.variants.map Variant.groupName := by
    intro listed
    obtain ⟨variant, variantMember, same⟩ := List.mem_map.mp listed
    rw [tidy.own head List.mem_cons_self variant variantMember] at same
    exact tidy.ne_of_mem_tail member same.symm
  rw [List.flatMap_cons, List.map_append, List.idxOf_append_of_notMem absent, List.length_map]

theorem ordered (tidy : Tidy families) :
    (families.map Family.name).Pairwise fun earlier later =>
      ((families.flatMap Family.variants).map Variant.groupName).idxOf earlier <
        ((families.flatMap Family.variants).map Variant.groupName).idxOf later := by
  induction families with
  | nil => exact .nil
  | cons head rest ih =>
    obtain ⟨first, others, declared⟩ := List.exists_cons_of_ne_nil
      (tidy.stocked head List.mem_cons_self)
    have named : first.groupName = head.name :=
      tidy.own head List.mem_cons_self first (by rw [declared]; exact List.mem_cons_self)
    rw [List.map_cons, List.pairwise_cons]
    constructor
    · intro later member
      have atStart : (((head :: rest).flatMap Family.variants).map Variant.groupName).idxOf head.name =
          0 := by
        rw [List.flatMap_cons, declared, List.cons_append, List.map_cons, named, List.idxOf_cons_self]
      rw [atStart, tidy.idxOf_cons member, declared, List.length_cons]
      omega
    · apply (ih tidy.tail).imp_of_mem
      intro earlier later earlierMember laterMember before
      rw [tidy.idxOf_cons earlierMember, tidy.idxOf_cons laterMember]
      exact Nat.add_lt_add_left before _

theorem grouped (tidy : Tidy families) : Grouped (families.flatMap Family.variants) families where
  members := fun _ member => (tidy.filter_flatMap member).symm
  stocked := tidy.stocked
  complete := fun _ member => tidy.groupName_mem member
  ordered := tidy.ordered

theorem groupByName_flatMap (tidy : Tidy families) :
    Family.groupByName (families.flatMap Family.variants) = families :=
  (Family.grouped_groupByName _).unique tidy.grouped

end Tidy

namespace Family

theorem mapM_create {families : List Family} (stocked : Stocked families) :
    (families.mapM fun family => create family.name family.variants) = .ok families := by
  induction families with
  | nil => rfl
  | cons family rest ih =>
    have made : create family.name family.variants = .ok family :=
      create_ok_iff.mpr ⟨stocked family List.mem_cons_self, rfl⟩
    rw [List.mapM_cons, made, ih fun other member => stocked other (.tail _ member)]
    rfl

/-- Any variants, filed one after the other, are grouped without a fault into families that hold them all, each
once. The families have different names, none of them blank, in the order in which they first occur; and each
has the variants of its name, in the given order. A variant goes by its family name without the blanks at the
ends, and under a common name if nothing is left of it, next to variants for which that name is given. What the
families list is grouped into these families again. -/
theorem groupByName_partitions (variants : List Variant) :
    ((variants.foldl file []).mapM fun family => create family.name family.variants) =
      .ok (groupByName variants) ∧
    Grouped variants (groupByName variants) ∧
    ((groupByName variants).map name).Nodup ∧
    (∀ family ∈ groupByName variants,
      ∃ character ∈ family.name.toList, Text.isBlank character = false) ∧
    (∀ (variant : Variant) (name : String), variant.FiledUnder name ↔ variant.groupName = name) ∧
    (∀ variant : Variant, variant.familyName = some unknownFamily →
      variant.groupName = unknownFamily) ∧
    ((groupByName variants).flatMap Family.variants).Perm variants ∧
    groupByName ((groupByName variants).flatMap Family.variants) = groupByName variants := by
  have grouped := grouped_groupByName variants
  refine ⟨?_, grouped, grouped.nodup_names, ?_, fun _ _ => Variant.filedUnder_iff, ?_, grouped.perm,
    grouped.tidy.groupByName_flatMap⟩
  · rw [← groupByName_eq_foldl]
    exact mapM_create grouped.stocked
  · intro family member
    obtain ⟨variant, _, named⟩ := List.mem_map.mp (mem_groupByName.mp member).1
    exact (Variant.filedUnder_iff.mpr named).exists_not_blank
  · intro variant named
    rw [Variant.groupName, named]
    decide

/-- Names with blanks at their ends, a blank one, a missing one and the common one itself. -/
def assortedVariants : List Variant :=
  [⟨.regular, some " Serif", none, some "a"⟩, ⟨.regular, none, none, some "b"⟩,
    ⟨.regular, some "Sans", none, some "c"⟩, ⟨.regular, some "Serif\t", none, some "d"⟩,
    ⟨.regular, some "Unknown", none, some "e"⟩, ⟨.regular, some " ", none, some "f"⟩]

theorem groupByName_partitions_assorted :
    (groupByName assortedVariants).map name = ["Serif", "Unknown", "Sans"] ∧
      ∃ family ∈ groupByName assortedVariants, family.name = unknownFamily ∧
        family.variants.map Variant.fileName = [some "b", some "e", some "f"] ∧
        (∃ character ∈ family.name.toList, Text.isBlank character = false) ∧
        (∀ variant ∈ family.variants, variant.FiledUnder unknownFamily) ∧
        ((groupByName assortedVariants).flatMap Family.variants).Perm assortedVariants ∧
        groupByName ((groupByName assortedVariants).flatMap Family.variants) =
          groupByName assortedVariants := by
  obtain ⟨_, grouped, _, named, filed, _, perm, again⟩ := groupByName_partitions assortedVariants
  have names : (groupByName assortedVariants).map name = ["Serif", "Unknown", "Sans"] := by
    decide +kernel
  obtain ⟨family, member, unknown⟩ : ∃ family ∈ groupByName assortedVariants,
      family.name = unknownFamily := by
    apply List.mem_map.mp
    rw [names]
    decide
  have members := grouped.members family member
  refine ⟨names, family, member, unknown, ?_, named family member, ?_, perm, again⟩
  · rw [members, unknown]
    decide +kernel
  · intro variant listed
    rw [filed, ← unknown]
    exact grouped.own member listed

end Family

end Typeface
