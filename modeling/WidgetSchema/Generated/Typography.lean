-- The typography panel: one cluster for every declared role.
import WidgetSchema.Generated.Line
import WidgetSchema.Typography.Font
namespace WidgetSchema.Generated

/-- The known roles with their labels, in the order of the panel. -/
def knownRoles : List (String × String) :=
  [("title", "Title"), ("section", "Section"), ("question", "Questions"), ("answer", "Answers"),
    ("heading", "Heading"), ("timer", "Timer"), ("label", "Labels"), ("button", "CTA")]

def sizeChoices : String :=
  choiceList [("X-Small", "xs"), ("Small", "s"), ("Medium", "m"), ("Large", "l"),
    ("X-Large", "xl"), ("Custom", "custom")]

def styleChoices : String := choiceList [("Normal", "normal"), ("Italic", "italic")]

def weightChoices : String := encodeChoices (.array (Font.allWeightChoices.map Choice.toNode))

def fontNode (family : String) : Node :=
  .object [("label", .string family), ("styles", .string (Text.join "," (Font.stylesOf family))),
    ("value", .string family), ("weights", .string (Text.join "," (Font.weightsOf family)))]

def fontChoices : String :=
  encodeChoices (.array (Font.catalogue.map fun (family, _) => fontNode family))

def roleField (type path label extra : String) : String :=
  "<tooldrawer-field-typofields group-label='' type='" ++ type ++ "' size='md'" ++ path ++
    " label='" ++ label ++ "'" ++ extra ++ " />"

def pathAttribute (path : String) : String := " path='" ++ path ++ "'"

def chosenFrom (placeholder choices : String) : String :=
  " placeholder='" ++ placeholder ++ "' options='" ++ choices ++ "'"

/-- The cluster of one role. -/
def roleCluster (role label : String) : List String :=
  let base := "typography.roles." ++ role
  let menu (field label placeholder choices : String) :=
    "    " ++ roleField "dropdown-actions" (pathAttribute (base ++ "." ++ field)) label
      (chosenFrom placeholder choices)
  ["  <tooldrawer-cluster label='" ++ label ++ "'>",
    menu "family" "Font family" "Choose font" fontChoices,
    menu "sizePreset" "Size" "Choose size" sizeChoices,
    "    " ++ roleField "valuefield" (pathAttribute (base ++ ".sizeCustom")) "Custom size (px)"
      (" min='0' max='200' step='1' show-if=\"" ++ base ++ ".sizePreset == 'custom'\""),
    menu "fontStyle" "Style" "Choose style" styleChoices,
    menu "weight" "Weight" "Choose weight" weightChoices,
    "    " ++ roleField "dropdown-fill"
      (" allow-image='false'" ++ pathAttribute (base ++ ".color")) "Color" "",
    "  </tooldrawer-cluster>"]

def familyLine : String :=
  "  " ++ roleField "textfield" (pathAttribute "typography.globalFamily") "Global font family"
    " show-if=\"false\""

/-- The lines of the panel. There is no panel where no known role is declared. -/
def typographyPanel (roles : Node) : List String :=
  match knownRoles.filter fun (role, _) => (roles.member? role).isSome with
  | [] => []
  | declared =>
    panelOpen "typography" :: familyLine ::
      (declared.flatMap fun (role, label) => roleCluster role label) ++ [panelClose]

end WidgetSchema.Generated
