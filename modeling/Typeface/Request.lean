import Typeface.Identity

/-! Requests, which lead from one identity to the next. A request takes its base from where the
caller says, or from a default; requests that select anew may bring families of their own. -/

set_option autoImplicit false

namespace Typeface

inductive Request where
  | absolute (weight : Number) (italic : Bool)
  | relative (style : StyleClass)
  | fromFontTable
  | rebaseWeight (weight : Number)
  deriving DecidableEq

namespace Request

inductive Kind where
  | absolute
  | relative
  | fromFontTable
  | rebaseWeight
  deriving DecidableEq, Repr

def Kind.all : List Kind := [.absolute, .relative, .fromFontTable, .rebaseWeight]

def Kind.name : Kind → String
  | .absolute => "absolute"
  | .relative => "relative"
  | .fromFontTable => "fromFontTable"
  | .rebaseWeight => "rebaseWeight"

def kind : Request → Kind
  | .absolute _ _ => .absolute
  | .relative _ => .relative
  | .fromFontTable => .fromFontTable
  | .rebaseWeight _ => .rebaseWeight

end Request

structure Source where
  base : Option Identity
  families : Option (List Family)
  deriving DecidableEq, Repr

namespace Source

def none : Source := ⟨.none, .none⟩

def ofBase (base : Option Identity) : Source := ⟨base, .none⟩

def ofFamilies (families : List Family) : Source := ⟨.none, some families⟩

def identity (source : Source) (default : Option Identity) : Except Fault Identity :=
  match source.base.or default with
  | some identity => .ok identity
  | .none => .error .noDefault

/-- The families given, even if there are none in the list, or those of the base or default. -/
def drawnFrom (source : Source) (default : Option Identity) : Except Fault (List Family) :=
  match source.families with
  | some families => .ok families
  | .none => (source.identity default).map Identity.families

end Source

/-- The identity that a request leads to. Requests for a weight relative to a base, or for a new
base weight, keep the families of the base and do not look at them. -/
def Request.resolve (request : Request) (source : Source) (default : Option Identity) :
    Except Fault Identity :=
  match request with
  | .absolute weight italic =>
    (source.drawnFrom default).bind fun families =>
      (selectVariant families (.given weight) (.given italic)).map fun selection =>
        .ofStyle selection.style families
  | .relative style => (source.identity default).map (·.relative style)
  | .fromFontTable =>
    (source.drawnFrom default).bind fun families =>
      (selectVariant families .byFontTable .byFontTable).map fun selection =>
        .ofStyle selection.style families
  | .rebaseWeight weight =>
    (source.identity default).map fun base => .ofBaseWeight weight base.families

/-! Requests as untyped data: an object whose member `kind` tells which other members count. Further
members are passed over, and a request written out again has only those of its kind. -/

namespace Request

def Kind.ofValue? : Value → Option Kind
  | .string name => Kind.all.find? (·.name = name)
  | _ => none

def decode : Decoder Request :=
  .object fun value =>
    match Kind.ofValue? (value.member "kind") with
    | some .absolute =>
      Decoder.map (fun (weight, italic) => .absolute weight italic)
        (.both (.member "weight" .number) (.member "italic" .boolean)) value
    | some .relative =>
      Decoder.map .relative (.member "style" (.oneOf StyleClass.all StyleClass.name)) value
    | some .fromFontTable => .ok .fromFontTable
    | some .rebaseWeight => Decoder.map .rebaseWeight (.member "weight" .number) value
    | none => .error [.below "kind" (.here (.undistinguished (Kind.all.map Kind.name)))]

def members : Request → List (String × Value)
  | .absolute weight italic => [("weight", .number weight), ("italic", .boolean italic)]
  | .relative style => [("style", .string style.name)]
  | .fromFontTable => []
  | .rebaseWeight weight => [("weight", .number weight)]

def toValue (request : Request) : Value :=
  .object (("kind", .string request.kind.name) :: request.members)

/-- What stands for a request that is rejected: to return to the normal style of the base. -/
def fallback : Request := .relative .normal

end Request

end Typeface
