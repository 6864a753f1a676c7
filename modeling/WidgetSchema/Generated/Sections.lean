-- Putting generated sections into the markup of a widget, in place of authored ones.
import WidgetSchema.Generated.Layout
import WidgetSchema.Generated.Typography
import WidgetSchema.Node.Path
namespace WidgetSchema.Generated

open Text

/-- A value that is there and not null. -/
def solidValue? (v : Option Node) : Option Node := v.filter fun v => !v.isNull

/-- The typography roles that a widget declares. -/
def roles? (defaults : Node) : Option Node :=
  solidValue? (defaults.getAt (Path.ofText "typography.roles"))

/-- Whether a widget has a stage or a pod. -/
def hasStagePod (defaults : Node) : Bool :=
  (solidValue? (defaults.member? "stage")).isSome || (solidValue? (defaults.member? "pod")).isSome

/-- The lines that stay: without the typography panel where one is generated, and without the
lines for stage and pod where these are generated. -/
def authored (hasRoles hasLayout : Bool) : (skipping : Bool) → List String → List String
  | _, [] => []
  | true, line :: rest => authored hasRoles hasLayout (!closesPanel line) rest
  | false, line :: rest =>
    if hasRoles && contains line (panelOpen "typography") then
      authored hasRoles hasLayout (!closesPanel line) rest
    else if hasLayout && isLayoutLine line then authored hasRoles hasLayout false rest
    else line :: authored hasRoles hasLayout false rest

/-- The lines with others put in front of the first one that has a property, if there is one. -/
def insertBefore? (p : String → Bool) (new : List String) : List String → Option (List String)
  | [] => none
  | line :: rest =>
    if p line then some (new ++ line :: rest) else (insertBefore? p new rest).map (line :: ·)

def opensLayout (line : String) : Bool := contains line (panelOpen "layout")

/-- The lines with the section for stage and pod at the end of the layout panel. -/
def addLayout : List String → List String
  | [] => panelOpen "layout" :: layoutFields ++ [panelClose]
  | line :: rest =>
    if opensLayout line then
      line :: (insertBefore? closesPanel layoutFields rest).getD (rest ++ layoutFields)
    else line :: addLayout rest

/-- The lines with the typography panel in front of the layout panel, or at the end. -/
def addTypography (panel lines : List String) : List String :=
  (insertBefore? opensLayout panel lines).getD (lines ++ panel)

/-- The markup lines of a widget with its generated sections. -/
def addSections (lines : List String) (defaults : Node) : List String :=
  let roles := roles? defaults
  let layout := hasStagePod defaults
  let lines := authored roles.isSome layout false lines
  let lines := if layout then addLayout lines else lines
  let lines := match roles with
    | some r => addTypography (typographyPanel r) lines
    | none => lines
  splitMixed lines

end WidgetSchema.Generated
