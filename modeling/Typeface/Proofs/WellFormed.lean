import Typeface.Proofs.Listing
import Typeface.Request

/-! What holds of every identity that requests lead to. The weight that is shown is the base weight or
one step above it, the class is that of the style unless the identity was given a new base weight, and
the families are one of the lists that were supplied, with variants in each family. The last part is
handed on by requests that never look at the families. -/

set_option autoImplicit false

namespace Typeface

structure Identity.WellFormed (supplied : List (List Family)) (identity : Identity) : Prop where
  weight_mem : 1 ≤ identity.style.weight.value ∧ identity.style.weight.value ≤ 1000
  baseWeight_mem : 1 ≤ identity.baseWeight ∧ identity.baseWeight ≤ 1000
  weight_eq : (identity.style.weight.value : Int) = identity.baseWeight ∨
    (identity.style.weight.value : Int) = min 1000 (identity.baseWeight + 300)
  styleClass_eq : identity.styleClass = identity.style.styleClass ∨
    identity.styleClass = .normal ∧ identity.style.slant = .upright ∧
      (identity.style.weight.value : Int) = identity.baseWeight
  supplied : identity.families ∈ supplied
  nonempty : identity.families ≠ []
  stocked : Stocked identity.families

namespace Identity

variable {supplied : List (List Family)} {families : List Family} {base identity : Identity}

theorem wellFormed_ofStyle (style : Style) (member : families ∈ supplied) (nonempty : families ≠ [])
    (stocked : Stocked families) : (ofStyle style families).WellFormed supplied where
  weight_mem := ⟨style.weight.one_le, style.weight.le_thousand⟩
  baseWeight_mem := by
    have := style.weight.one_le
    have := style.weight.le_thousand
    simp only [ofStyle]
    omega
  weight_eq := .inl rfl
  styleClass_eq := .inl rfl
  supplied := member
  nonempty := nonempty
  stocked := stocked

theorem wellFormed_ofBaseWeight (weight : Number) (member : families ∈ supplied)
    (nonempty : families ≠ []) (stocked : Stocked families) :
    (ofBaseWeight weight families).WellFormed supplied :=
  -- It differs from the identity of its style in the class only.
  { wellFormed_ofStyle (.ofNumber weight .upright) member nonempty stocked with
    styleClass_eq := .inr ⟨rfl, rfl, rfl⟩ }

theorem relativeWeight_eq {weight : Int} (least : 1 ≤ weight) (greatest : weight ≤ 1000)
    (wanted : StyleClass) :
    ((relativeWeight weight wanted).value : Int) =
      if wanted.isBold then min 1000 (weight + 300) else weight := by
  rw [relativeWeight, Weight.value_ofInt]
  cases wanted.isBold with
  | true => simp only [if_true, Weight.boldStep]; omega
  | false => simp only [Bool.false_eq_true, if_false]; omega

theorem WellFormed.relative (wellFormed : base.WellFormed supplied) (wanted : StyleClass) :
    (base.relative wanted).WellFormed supplied where
  weight_mem := ⟨Weight.one_le _, Weight.le_thousand _⟩
  baseWeight_mem := wellFormed.baseWeight_mem
  weight_eq := by
    have weight := relativeWeight_eq wellFormed.baseWeight_mem.1 wellFormed.baseWeight_mem.2 wanted
    simp only [Identity.relative, weight]
    split
    · exact .inr rfl
    · exact .inl rfl
  styleClass_eq := .inl rfl
  supplied := wellFormed.supplied
  nonempty := wellFormed.nonempty
  stocked := wellFormed.stocked

theorem WellFormed.exists_draw (wellFormed : identity.WellFormed supplied) :
    ∃ selection, identity.draw = .ok selection := by
  rw [draw, selectStyle_eq_selectVariant]
  exact selectVariant_ok_iff.mpr ⟨wellFormed.nonempty, wellFormed.stocked⟩

theorem wellFormed_of_selectVariant {weight : Wanted Number} {italic : Wanted Bool}
    (member : families ∈ supplied)
    (success : ((selectVariant families weight italic).map fun selection =>
      ofStyle selection.style families) = .ok identity) : identity.WellFormed supplied := by
  obtain ⟨selection, found, rfl⟩ := map_eq_ok_iff.mp success
  obtain ⟨nonempty, stocked⟩ := selectVariant_ok_iff.mp ⟨selection, found⟩
  exact wellFormed_ofStyle selection.style member nonempty stocked

end Identity

namespace Request

variable {supplied : List (List Family)} {source : Source} {default : Option Identity}
  {identity : Identity}

theorem drawnFrom_mem (given : ∀ families ∈ source.families, families ∈ supplied)
    (bases : ∀ base, source.identity default = .ok base → base.WellFormed supplied)
    {families : List Family} (drawn : source.drawnFrom default = .ok families) :
    families ∈ supplied := by
  unfold Source.drawnFrom at drawn
  split at drawn
  next other found =>
    obtain rfl : other = families := Except.ok.inj drawn
    exact given other found
  next =>
    obtain ⟨base, found, rfl⟩ := map_eq_ok_iff.mp drawn
    exact (bases base found).supplied

theorem wellFormed_of_resolve (request : Request)
    (given : ∀ families ∈ source.families, families ∈ supplied)
    (bases : ∀ base, source.identity default = .ok base → base.WellFormed supplied)
    (success : request.resolve source default = .ok identity) : identity.WellFormed supplied := by
  have selected {weight : Wanted Number} {italic : Wanted Bool}
      (success : ((source.drawnFrom default).bind fun families =>
        (selectVariant families weight italic).map fun selection =>
          Identity.ofStyle selection.style families) = .ok identity) :
      identity.WellFormed supplied := by
    obtain ⟨families, drawn, success⟩ := bind_eq_ok_iff.mp success
    exact Identity.wellFormed_of_selectVariant (drawnFrom_mem given bases drawn) success
  cases request with
  | absolute weight italic => exact selected success
  | fromFontTable => exact selected success
  | relative wanted =>
    obtain ⟨base, found, rfl⟩ := map_eq_ok_iff.mp success
    exact (bases base found).relative wanted
  | rebaseWeight weight =>
    obtain ⟨base, found, rfl⟩ := map_eq_ok_iff.mp success
    have ⟨_, _, _, _, member, nonempty, stocked⟩ := bases base found
    exact Identity.wellFormed_ofBaseWeight weight member nonempty stocked

end Request

end Typeface
