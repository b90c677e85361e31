import Typeface.Proofs.Regrouping

/-! When a renderer is asked for synthetic styling. The thresholds are exact weights and the distances by
which variants are compared are grades, yet the two fit together: a step of two hundred is at least two
grades, and a drawn variant that far away has no rival of the wanted slant within one grade. A slant is
synthesized exactly if every italic variant is so much further away in weight that the slant does not
make up for it. -/

set_option autoImplicit false

namespace Typeface

def Weight.gradesApart (left right : Weight) : Nat := ((left.grade : Int) - right.grade).natAbs

section

variable {wanted actual : Style}

theorem matchScore_of_slant_eq (same : actual.slant = wanted.slant) :
    matchScore wanted actual = wanted.weight.gradesApart actual.weight := by
  rw [matchScore, if_pos same.symm, Nat.add_zero, Weight.gradesApart]

theorem matchScore_of_slant_ne (other : actual.slant ≠ wanted.slant) :
    matchScore wanted actual = wanted.weight.gradesApart actual.weight + 2 := by
  rw [matchScore, if_neg other.symm, Weight.gradesApart]

theorem gradesApart_le_matchScore (wanted actual : Style) :
    wanted.weight.gradesApart actual.weight ≤ matchScore wanted actual :=
  Nat.le_add_right _ _

theorem Fakery.bold_between_iff :
    (between wanted actual).bold = true ↔
      Weight.boldThreshold.value ≤ wanted.weight.value ∧
        actual.weight.value + fakeBoldGap ≤ wanted.weight.value := by
  simp [between]

theorem Fakery.italic_between_iff :
    (between wanted actual).italic = true ↔ wanted.slant = .italic ∧ actual.slant ≠ wanted.slant := by
  cases slant : wanted.slant <;> cases other : actual.slant <;> simp [between, slant, other]

theorem Fakery.one_lt_gradesApart (bold : (between wanted actual).bold = true) :
    1 < wanted.weight.gradesApart actual.weight := by
  have gap := (bold_between_iff.mp bold).2
  simp only [fakeBoldGap] at gap
  simp only [Weight.gradesApart, Weight.grade]
  omega

end

/-- What is added to a drawn variant has a reason in all variants of the families. -/
structure Justified (identity : Identity) (drawn : Selection) : Prop where
  bold : drawn.fakery.bold = true ↔
    Weight.boldThreshold.value ≤ identity.style.weight.value ∧
      drawn.variant.style.weight.value + fakeBoldGap ≤ identity.style.weight.value
  -- No variant of the wanted slant is within one grade.
  remote : drawn.fakery.bold = true →
    ∀ variant ∈ identity.families.flatMap Family.variants,
      variant.style.slant = identity.style.slant →
        1 < identity.style.weight.gradesApart variant.style.weight
  italic : drawn.fakery.italic = true ↔
    identity.style.slant = .italic ∧
      ∀ variant ∈ identity.families.flatMap Family.variants, variant.style.slant = .italic →
        identity.style.weight.gradesApart drawn.variant.style.weight + 2 ≤
          identity.style.weight.gradesApart variant.style.weight
  upright : drawn.fakery.italic = true → drawn.variant.style.slant = .upright
  declared : (∃ variant ∈ identity.families.flatMap Family.variants, variant.style = identity.style) →
    drawn.fakery = ⟨false, false⟩

section

variable {identity : Identity} {drawn : Selection}

theorem one_lt_gradesApart_of_draw (success : identity.draw = .ok drawn)
    (bold : drawn.fakery.bold = true) {variant : Variant}
    (member : variant ∈ identity.families.flatMap Family.variants)
    (same : variant.style.slant = identity.style.slant) :
    1 < identity.style.weight.gradesApart variant.style.weight := by
  rw [fakery_of_draw success] at bold
  have least := (isForemost_of_draw success).le member
  rw [matchScore_of_slant_eq same] at least
  calc
    1 < identity.style.weight.gradesApart drawn.variant.style.weight := Fakery.one_lt_gradesApart bold
    _ ≤ matchScore identity.style drawn.variant.style := gradesApart_le_matchScore _ _
    _ ≤ identity.style.weight.gradesApart variant.style.weight := least

theorem italic_fakery_iff_of_draw (success : identity.draw = .ok drawn) :
    drawn.fakery.italic = true ↔
      identity.style.slant = .italic ∧
        ∀ variant ∈ identity.families.flatMap Family.variants, variant.style.slant = .italic →
          identity.style.weight.gradesApart drawn.variant.style.weight + 2 ≤
            identity.style.weight.gradesApart variant.style.weight := by
  have foremost := isForemost_of_draw success
  rw [fakery_of_draw success, Fakery.italic_between_iff]
  constructor
  · rintro ⟨leans, other⟩
    refine ⟨leans, fun variant member italic => ?_⟩
    have least := foremost.le member
    rwa [matchScore_of_slant_ne other, matchScore_of_slant_eq (italic.trans leans.symm)] at least
  · rintro ⟨leans, further⟩
    refine ⟨leans, fun same => ?_⟩
    -- An italic variant that is drawn would have to be further away than itself.
    have := further drawn.variant foremost.mem (same.trans leans)
    omega

theorem fakery_eq_of_declared (success : identity.draw = .ok drawn) {variant : Variant}
    (member : variant ∈ identity.families.flatMap Family.variants)
    (declared : variant.style = identity.style) : drawn.fakery = ⟨false, false⟩ := by
  have least := (isForemost_of_draw success).le member
  rw [declared, matchScore_self, Nat.le_zero, matchScore_eq_zero_iff] at least
  obtain ⟨slant, grade⟩ := least
  have bold : drawn.fakery.bold ≠ true := by
    intro bold
    rw [fakery_of_draw success] at bold
    have apart := Fakery.one_lt_gradesApart bold
    simp [Weight.gradesApart, grade] at apart
  have italic : drawn.fakery.italic ≠ true := by
    intro needed
    rw [fakery_of_draw success, Fakery.italic_between_iff] at needed
    exact needed.2 slant
  cases found : drawn.fakery
  simp_all

theorem justified_of_draw (success : identity.draw = .ok drawn) : Justified identity drawn where
  bold := by
    rw [fakery_of_draw success]
    exact Fakery.bold_between_iff
  remote := fun bold _ => one_lt_gradesApart_of_draw success bold
  italic := italic_fakery_iff_of_draw success
  upright := by
    rw [fakery_of_draw success, Fakery.italic_between_iff]
    rintro ⟨leans, other⟩
    cases slant : drawn.variant.style.slant with
    | upright => rfl
    | italic => exact absurd (slant.trans leans.symm) other
  declared := by
    rintro ⟨_, member, declared⟩
    exact fakery_eq_of_declared success member declared

end

/-- An identity over families that all have variants is drawn, and synthetic styling is asked for only where
no variant of the families would do. -/
theorem draw_justified (identity : Identity) (nonempty : identity.families ≠ [])
    (stocked : Stocked identity.families) :
    ∃ drawn, identity.draw = .ok drawn ∧ Justified identity drawn := by
  obtain ⟨drawn, success, _⟩ := draw_nearest identity nonempty stocked
  exact ⟨drawn, success, justified_of_draw success⟩

/-- The nearest variant is upright and just light enough for a synthetic bold; the italic one is three grades
further away. -/
def slopedFamilies : List Family :=
  [⟨"Sans", [.plain 300 .italic, .plain 600 .upright]⟩, ⟨"Serif", [.plain 400 .upright]⟩]

theorem draw_justified_sloped :
    slopedFamilies ≠ [] ∧ Stocked slopedFamilies ∧
      (∃ drawn, (Identity.ofStyle ⟨.ofInt 800, .italic⟩ slopedFamilies).draw = .ok drawn ∧
        Justified (.ofStyle ⟨.ofInt 800, .italic⟩ slopedFamilies) drawn ∧
        drawn.fakery = ⟨true, true⟩ ∧ drawn.variant.style.slant = .upright) ∧
      ∃ drawn, (Identity.ofStyle ⟨.ofInt 300, .italic⟩ slopedFamilies).draw = .ok drawn ∧
        drawn.fakery = ⟨false, false⟩ := by
  have nonempty : slopedFamilies ≠ [] := List.cons_ne_nil _ _
  have stocked : Stocked slopedFamilies := by decide
  obtain ⟨drawn, success, justified⟩ :=
    draw_justified (.ofStyle ⟨.ofInt 800, .italic⟩ slopedFamilies) nonempty stocked
  obtain ⟨other, otherSuccess, otherJustified⟩ :=
    draw_justified (.ofStyle ⟨.ofInt 300, .italic⟩ slopedFamilies) nonempty stocked
  have fakery : drawn.fakery = ⟨true, true⟩ := by
    cases success
    rfl
  exact ⟨nonempty, stocked,
    ⟨drawn, success, justified, fakery, justified.upright (by rw [fakery])⟩,
    other, otherSuccess, otherJustified.declared ⟨_, List.mem_cons_self, rfl⟩⟩

end Typeface
