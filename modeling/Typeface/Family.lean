import Typeface.Fault
import Typeface.Style
import Typeface.Text

/-! Font variants, families of variants, and the grouping of variants into families by their names:
families in the order in which their names first occur, the variants of each in the given order. -/

set_option autoImplicit false

namespace Typeface

structure Variant where
  style : Style
  familyName : Option String
  postscriptName : Option String
  fileName : Option String
  deriving DecidableEq, Repr

structure Family where
  name : String
  variants : List Variant
  deriving DecidableEq, Repr

def unknownFamily : String := "Unknown"

/-- The name under which a variant is grouped: its family name without blanks at the ends, and a
common name for variants whose family name is blank or missing. -/
def Variant.groupName (variant : Variant) : String :=
  match Text.trim (variant.familyName.getD "").toList with
  | [] => unknownFamily
  | name => .ofList name

namespace Family

def create (name : String) (variants : List Variant) : Except Fault Family :=
  if variants = [] then .error (.noMembers name) else .ok ⟨name, variants⟩

theorem create_ok_iff {name : String} {variants : List Variant} {family : Family} :
    create name variants = .ok family ↔ variants ≠ [] ∧ family = ⟨name, variants⟩ := by
  unfold create
  split <;> simp_all [eq_comm]

def groupByName (variants : List Variant) : List Family :=
  (variants.map Variant.groupName).eraseDups.map fun name =>
    ⟨name, variants.filter (·.groupName = name)⟩

end Family

def Stocked (families : List Family) : Prop := ∀ family ∈ families, family.variants ≠ []

instance (families : List Family) : Decidable (Stocked families) :=
  inferInstanceAs (Decidable (∀ family ∈ families, family.variants ≠ []))

def firstEmpty? (families : List Family) : Option (Family × Nat) :=
  families.zipIdx.find? fun (family, _) => family.variants = []

theorem firstEmpty?_eq_none_iff {families : List Family} :
    firstEmpty? families = none ↔ Stocked families := by
  simp only [firstEmpty?, List.find?_eq_none, decide_eq_true_eq, Stocked, Prod.forall]
  constructor
  · intro none family member
    obtain ⟨index, found⟩ := List.getElem?_of_mem member
    exact none family index (List.mem_zipIdx_iff_getElem?.2 found)
  · intro stocked family index member
    exact stocked family (List.mem_of_getElem? (List.mem_zipIdx_iff_getElem?.1 member))

end Typeface
