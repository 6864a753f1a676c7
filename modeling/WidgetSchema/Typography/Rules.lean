-- The rules between the fonts, sizes and scales of a widget that has typography.
import WidgetSchema.Typography.Font
import WidgetSchema.Typography.Scale
import WidgetSchema.Violation
namespace WidgetSchema.Typography

/-- A string that is not blank. -/
def solid? (t : Option Node) : Option String :=
  (t.bind Node.string?).filter fun s => !Text.isBlankText s

/-- The roles that are objects, by name. -/
def roles? (typography : Node) : Option (Members Node) :=
  ((typography.member? "roles").bind Node.object?).map fun ms => ms.filter fun (_, r) => r.isObject

def scalePath (role : String) : String := "typography.roleScales." ++ role

def rolePath (role field : String) : String := "typography.roles." ++ role ++ "." ++ field

/-- A custom size has to be of the kind of its scale. -/
def sizeFaults (role : String) (r : Node) (kind : Option ScaleKind) : List Violation :=
  let place := rolePath role "sizeCustom"
  match solid? (r.member? "sizeCustom"), kind with
  | none, _ => [⟨place, .missing⟩]
  | some size, some .number => if Css.isNumeric size then [] else [⟨place, .sizeNotNumber⟩]
  | some size, some .length => if Css.isLength size then [] else [⟨place, .sizeNotLength⟩]
  | some _, none => []

def roleScaleFaults (scales : Node) (role : String) (r : Node) : List Violation :=
  match (scales.member? role).filter Node.isObject with
  | none => [⟨scalePath role, .expectedObject⟩]
  | some scale =>
    let missing := ScaleKind.sizes.filter fun size => (solid? (scale.member? size)).isNone
    let kind := ScaleKind.ofScale? scale
    (missing.map fun size => ⟨scalePath role ++ "." ++ size, .missing⟩) ++
      (if kind.isNone then [⟨scalePath role, .mixedScale⟩] else []) ++
      sizeFaults role r kind

def scaleFaults (typography : Node) : List Violation :=
  match roles? typography with
  | none => []
  | some roles =>
    match (typography.member? "roleScales").filter Node.isObject with
    | none => [⟨"typography.roleScales", .expectedObject⟩]
    | some scales => roles.flatMap fun (role, r) => roleScaleFaults scales role r

def familyFaults (typography : Node) : List Violation :=
  match solid? (typography.member? "globalFamily") with
  | none => [⟨"typography.globalFamily", .missing⟩]
  | some family =>
    if Font.isKnown family then [] else [⟨"typography.globalFamily", .unknownFamily family⟩]

def choiceFaults (place value : String) (allowed : List String) : List Violation :=
  if allowed.contains value then [] else [⟨place, .notAllowed allowed⟩]

/-- The font of a role: a known family, and of its weights and styles one each. The weight is
looked at only where the family is known, and the style only where there is a weight. -/
def roleFontFaults (role : String) (r : Node) : List Violation :=
  match solid? (r.member? "family") with
  | none => [⟨rolePath role "family", .missing⟩]
  | some family =>
    if Font.isKnown family then
      match solid? (r.member? "weight") with
      | none => [⟨rolePath role "weight", .missing⟩]
      | some weight =>
        choiceFaults (rolePath role "weight") weight (Font.weightsOf family) ++
          match solid? (r.member? "fontStyle") with
          | none => [⟨rolePath role "fontStyle", .missing⟩]
          | some style => choiceFaults (rolePath role "fontStyle") style (Font.stylesOf family)
    else [⟨rolePath role "family", .unknownFamily family⟩]

def fontFaults (typography : Node) : List Violation :=
  familyFaults typography ++
    ((roles? typography).getD []).flatMap fun (role, r) => roleFontFaults role r

/-- The violations of the typography of a tree. Without a typography object there are none. -/
def violations (data : Node) : List Violation :=
  match (data.member? "typography").filter Node.isObject with
  | none => []
  | some typography => scaleFaults typography ++ fontFaults typography

end WidgetSchema.Typography
