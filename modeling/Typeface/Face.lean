import Typeface.Decoder
import Typeface.Style

/-! Decoded fonts as untyped data: the fields of a face that tell its style, and the table of a face
that declares it, whose selection field is either the raw bits or flags that are already decoded. -/

set_option autoImplicit false

namespace Typeface

inductive SelectionField where
  | bits (field : Number)
  | flags (italic : Option Bool)
  deriving DecidableEq

structure StyleTable where
  weightClass : Option Number
  selection : Option SelectionField
  deriving DecidableEq

namespace SelectionField

def defects (field : Number) : List Defect :=
  (if field.toInt?.isNone then [.notInteger] else []) ++
    if field.isNegative then [.negative] else []

/-- A number has to be a bit field; what is neither a number nor an object with flags is reported
as a whole. -/
def decode : Decoder SelectionField
  | .number field =>
    if field = .nan then .error [.here .shapeless]
    else if defects field = [] then .ok (.bits field)
    else .error ((defects field).map Issue.here)
  | value =>
    match Decoder.object (.member "italic" (.optional .boolean)) value with
    | .ok italic => .ok (.flags italic)
    | .error _ => .error [.here .shapeless]

/-- The italic bit is the lowest one. -/
def italic? : SelectionField → Option Bool
  | .bits field => some (field.toInt32 &&& 1 != 0)
  | .flags italic => italic

def toValue : SelectionField → Value
  | .bits field => .number field
  | .flags italic => .object [("italic", .ofOption .boolean italic)]

end SelectionField

namespace StyleTable

def decode : Decoder StyleTable :=
  .object <| .map (fun (weightClass, selection) => ⟨weightClass, selection⟩)
    (.both (.member "usWeightClass" (.optional .number))
      (.member "fsSelection" (.optional SelectionField.decode)))

def italic? (table : StyleTable) : Option Bool := table.selection.bind SelectionField.italic?

def toValue (table : StyleTable) : Value :=
  .object [("usWeightClass", .ofOption .number table.weightClass),
    ("fsSelection", .ofOption SelectionField.toValue table.selection)]

end StyleTable

structure Face where
  familyName : Option String
  subfamilyName : Option String
  postscriptName : Option String
  italicAngle : Option Number
  table : Value

namespace Face

def decode : Decoder Face :=
  .object <| .map
    (fun (familyName, subfamilyName, postscriptName, italicAngle, table) =>
      ⟨familyName, subfamilyName, postscriptName, italicAngle, table⟩)
    (.both (.member "familyName" (.nullable .string))
      (.both (.member "subfamilyName" (.nullable .string))
        (.both (.member "postscriptName" (.nullable .string))
          (.both (.member "italicAngle" (.optional .number))
            (.member "OS/2" .anything)))))

/-- The first font of a collection; any other value is a font itself, a collection without fonts
included. -/
def firstFont (font : Value) : Value :=
  match font.member "fonts" with
  | .array (first :: _) => first
  | _ => font

def ofFont? (font : Value) : Option Face := (decode (firstFont font)).toOption

def decodeTable (face : Face) : Except (List Issue) (Option StyleTable) :=
  Decoder.nullable StyleTable.decode face.table

def subfamily (face : Face) : String := face.subfamilyName.getD ""

end Face

end Typeface
