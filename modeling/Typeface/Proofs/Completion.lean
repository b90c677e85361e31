import Typeface.Proofs.Derivation

/-! Sides of a style that are left to the fonts. To leave a side to them is to give the one that the font
table declares, and an identity over a list of families is the one that an absolute request leads to from any
base with these families. So the ways to ask for an identity over families differ in the log only. -/

set_option autoImplicit false

namespace Typeface

def Wanted.orDeclared {α : Type} (wanted : Wanted α) (declared : α) : α :=
  match wanted with
  | .given value => value
  | .byFontTable => declared

section

variable {families : List Family} {declared selection : Selection}

theorem Selection.style_of_byStyle? {style : Style}
    (found : byStyle? families style = some selection) : selection.style = style :=
  (mem_among.mp (mem_among_of_byStyle? found)).2.2

theorem style_of_selectVariant (table : Selection.byFontTable? families = some declared)
    {weight : Wanted Number} {italic : Wanted Bool}
    (success : selectVariant families weight italic = .ok selection) :
    selection.style = .ofNumber (weight.orDeclared declared.style.weight.toNumber)
      (.ofItalic (italic.orDeclared declared.style.slant.isItalic)) := by
  have found := (Selection.checked_ok_iff.mp success).2
  cases weight with
  | given weight =>
    cases italic with
    | given italic => exact Selection.style_of_byStyle? found
    | byFontTable =>
      simp only [table, Option.bind_some] at found
      rw [Selection.style_of_byStyle? found]
      simp [Wanted.orDeclared]
  | byFontTable =>
    cases italic with
    | given italic =>
      simp only [table, Option.bind_some] at found
      rw [Selection.style_of_byStyle? found]
      simp [Wanted.orDeclared, Style.ofNumber]
    | byFontTable =>
      rw [table] at found
      cases found
      simp [Wanted.orDeclared, Style.ofNumber]

end

namespace Engine

/-- Over families that all have variants, an identity with sides left to the fonts is the one with the sides
that the font table declares given instead, and the one that an absolute request for these sides leads to
from a base with the same families, at every engine and registry. -/
theorem resolveFamilies_completed {families : List Family} (nonempty : families ≠ [])
    (stocked : Stocked families) :
    ∃ declared, selectVariant families .byFontTable .byFontTable = .ok declared ∧
      ∀ weight italic,
        let number := weight.orDeclared declared.style.weight.toNumber
        let leans := italic.orDeclared declared.style.slant.isItalic
        let identity := Identity.ofStyle (.ofNumber number (.ofItalic leans)) families
        ∀ (engine : Engine) (id : RegistryId),
          (engine.resolveFamilies families weight italic id).1 = .ok identity ∧
          (engine.resolveFamilies families (.given number) (.given leans) id).1 = .ok identity ∧
          ∀ base : Identity, base.families = families →
            (engine.resolve (.absolute number leans) (.ofBase (some base)) id).1 = .ok identity := by
  have selectable : families ≠ [] ∧ Stocked families := ⟨nonempty, stocked⟩
  obtain ⟨declared, success⟩ :
      ∃ declared, selectVariant families .byFontTable .byFontTable = .ok declared :=
    selectVariant_ok_iff.mpr selectable
  have table : Selection.byFontTable? families = some declared :=
    (Selection.checked_ok_iff.mp success).2
  have resolved (engine : Engine) (id : RegistryId) (weight : Wanted Number) (italic : Wanted Bool) :
      (engine.resolveFamilies families weight italic id).1 =
        .ok (.ofStyle (.ofNumber (weight.orDeclared declared.style.weight.toNumber)
          (.ofItalic (italic.orDeclared declared.style.slant.isItalic))) families) := by
    obtain ⟨selection, selected⟩ : ∃ selection, selectVariant families weight italic = .ok selection :=
      selectVariant_ok_iff.mpr selectable
    rw [resolveFamilies_fst, selected, ← style_of_selectVariant table selected]
    rfl
  refine ⟨declared, success, fun weight italic engine id => ⟨?_, ?_, ?_⟩⟩
  · exact resolved engine id weight italic
  · exact resolved engine id (.given _) (.given _)
  · rintro base rfl
    rw [resolve_fst, Identity.resolve_ofBase, Identity.after_absolute nonempty stocked]

/-- Families without a regular variant: the first variant is what the font table declares. -/
def slantedFamilies : List Family :=
  [⟨"Script", [.plain 350 .italic, .plain 700 .upright]⟩, ⟨"Poster", [.plain 850 .upright]⟩]

theorem resolveFamilies_completed_slanted :
    slantedFamilies ≠ [] ∧ Stocked slantedFamilies ∧
      ∃ identity : Identity, identity.style = ⟨.ofInt 350, .upright⟩ ∧
        (initial.resolveFamilies slantedFamilies .byFontTable (.given false) 0).1 = .ok identity ∧
        (initial.resolve (.absolute (.ofInt 350) false)
          (.ofBase (some ⟨⟨.bold, .italic⟩, 1000, .normal, slantedFamilies⟩)) 0).1 = .ok identity := by
  have nonempty : slantedFamilies ≠ [] := by decide
  have stocked : Stocked slantedFamilies := by decide
  obtain ⟨declared, success, completed⟩ := resolveFamilies_completed nonempty stocked
  obtain ⟨mixed, _, absolute⟩ := completed .byFontTable (.given false) initial 0
  cases success
  refine ⟨nonempty, stocked, _, ?_, mixed, absolute _ rfl⟩
  exact congrArg (Style.mk · .upright) (Weight.ofNumber_toNumber (.ofInt 350))

end Engine

end Typeface
