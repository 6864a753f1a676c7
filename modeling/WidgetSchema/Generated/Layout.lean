-- The shared section for stage and pod. The pod is the box with the content of a widget, the
-- stage is the canvas around it.
import WidgetSchema.Generated.Line
import WidgetSchema.Markup.Attribute
import WidgetSchema.Markup.Cluster
namespace WidgetSchema.Generated

open Text Markup

/-! ## The section -/

def layoutTag : String := "tooldrawer-field-podstagelayout"

def layoutLabel : String := "Stage/Pod layout"

/-- Whether an authored line belongs to a section for stage and pod. -/
def isLayoutLine (line : String) : Bool := contains line layoutTag || contains line layoutLabel

def layoutField (path type label extra : String) : String :=
  "    <" ++ layoutTag ++ " type='" ++ type ++ "' size='md' path='" ++ path ++ "' label='" ++
    label ++ "'" ++ extra ++ " />"

def showIf (condition : String) : String := " show-if=\"" ++ condition ++ "\""

def withChoices (placeholder : String) (choices : List (String × String)) : String :=
  " placeholder='" ++ placeholder ++ "' options='" ++ choiceList choices ++ "'"

/-- The padding of one device: linked, or side by side. -/
def devicePadding (owner title device : String) : List String :=
  let base := owner ++ ".padding." ++ device
  let unit := "(" ++ device ++ " px)"
  [layoutField (base ++ ".linked") "toggle" ("Link " ++ owner ++ " padding (" ++ device ++ ")") "",
    layoutField (base ++ ".all") "valuefield" (title ++ " padding " ++ unit)
      (showIf (base ++ ".linked == true"))] ++
  (["top", "right", "bottom", "left"].map fun side =>
    layoutField (base ++ "." ++ side) "valuefield" (title ++ " " ++ side ++ " padding " ++ unit)
      (showIf (base ++ ".linked == false")))

def paddingFields (owner title : String) : List String :=
  devicePadding owner title "desktop" ++ devicePadding owner title "mobile"

def clusterStartLine : String := "  <tooldrawer-cluster>"

def clusterEndLine : String := "  </tooldrawer-cluster>"

def podFields : List String :=
  [layoutField "pod.widthMode" "dropdown-actions" "Pod width"
      (withChoices "Choose width"
        [("Wrap pod to widget", "wrap"), ("Full width", "full"), ("Fixed width", "fixed")]),
    layoutField "pod.contentWidth" "valuefield" "Width in pixels"
      (showIf "pod.widthMode == 'fixed'"),
    layoutField "stage.alignment" "dropdown-actions" "Pod alignment"
      (withChoices "Choose alignment"
        [("Center", "center"), ("Align left", "left"), ("Align right", "right"),
          ("Align top", "top"), ("Align bottom", "bottom")])] ++
  paddingFields "pod" "Pod"

def stageFields : List String :=
  [layoutField "stage.canvas.mode" "dropdown-actions" "Stage sizing"
      (withChoices "Choose sizing"
        [("Full", "viewport"), ("Wrap to pod", "wrap"), ("Fixed size", "fixed")]),
    layoutField "stage.canvas.width" "valuefield" "Stage width (px)"
      (showIf "stage.canvas.mode == 'fixed'"),
    layoutField "stage.canvas.height" "valuefield" "Stage height (px)"
      (showIf "stage.canvas.mode == 'fixed'")] ++
  paddingFields "stage" "Stage"

/-- A cluster with a heading. -/
def headedCluster (heading : String) (fields : List String) : List String :=
  clusterStartLine :: ("    <tooldrawer-eyebrow text='" ++ heading ++ "' />") :: fields ++
    [clusterEndLine]

/-- The lines of the section: a cluster for the pod and one for the stage. -/
def layoutFields : List String :=
  headedCluster "Pod layout" podFields ++ headedCluster "Stage layout" stageFields

/-! ## Splitting mixed clusters -/

/-- What a line binds its field to. -/
inductive Binding where
  | stage
  | pod
  deriving DecidableEq

/-- The value of the first `path` attribute that starts a line or follows a blank. -/
def pathValue? (atBoundary : Bool) (cs : List Char) : Option (List Char) :=
  let found : Option (List Char) :=
    if atBoundary then
      (dropWord "path".toList cs).bind fun rest => (Attributes.assigned? rest).map (·.1)
    else none
  match found, cs with
  | some value, _ => some value
  | none, [] => none
  | none, c :: rest => pathValue? (isBlank c) rest

def binding? (line : String) : Option Binding :=
  if containsFolded line fieldOpen then
    match pathValue? true line.toList with
    | none => none
    | some value =>
      let path := trimChars value
      if "stage.".toList.isPrefixOf path then some .stage
      else if "pod.".toList.isPrefixOf path then some .pod
      else none
  else none

def opensCluster (line : String) : Bool := containsFolded line clusterOpen

def closesCluster (line : String) : Bool := containsFolded line clusterClose

/-- The lines of a cluster up to its closing line, that line, and the lines behind it. There is
none where another cluster opens first, or the panel ends. -/
def clusterLines? : List String → Option (List String × String × List String)
  | [] => none
  | line :: rest =>
    if opensCluster line || closesPanel line then none
    else if closesCluster line then some ([], line, rest)
    else (clusterLines? rest).map fun (body, close, after) => (line :: body, close, after)

theorem length_clusterLines? {lines body after : List String} {close : String}
    (h : clusterLines? lines = some (body, close, after)) : after.length < lines.length := by
  induction lines generalizing body with
  | nil => cases h
  | cons line rest ih =>
    simp only [clusterLines?] at h
    split at h
    · cases h
    · split at h
      · simp only [Option.some.injEq, Prod.mk.injEq] at h
        simp [← h.2.2]
      · obtain ⟨⟨b, c, a⟩, hb, he⟩ := Option.map_eq_some_iff.1 h
        simp only [Prod.mk.injEq] at he
        obtain ⟨_, h2, h3⟩ := he
        subst h2 h3
        have := ih hb
        simp only [List.length_cons]
        omega

def isStage (line : String) : Bool := binding? line == some .stage

def isPod (line : String) : Bool := binding? line == some .pod

def isMixed (body : List String) : Bool := body.any isStage && body.any isPod

/-- Whether a line is in the layout panel, when the line before it was or was not. -/
def inLayout (before : Bool) (line : String) : Bool :=
  if contains line (panelOpen "layout") then true else if closesPanel line then false else before

/-- The lines with every cluster of the layout panel that binds both stage and pod in two: the
lines that do not bind the stage, and those that do. Both keep the opening and closing line. -/
def splitClusters (before : Bool) (lines : List String) : List String :=
  match lines with
  | [] => []
  | line :: rest =>
    let inside := inLayout before line
    match h : clusterLines? rest with
    | some (body, close, after) =>
      if inside && opensCluster line && !closesCluster line && isMixed body then
        have : after.length < rest.length + 1 := by
          have := length_clusterLines? h
          omega
        line :: (body.filter fun l => !isStage l) ++ close ::
          line :: body.filter isStage ++ close :: splitClusters inside after
      else line :: splitClusters inside rest
    | none => line :: splitClusters inside rest
termination_by lines.length

def splitMixed (lines : List String) : List String := splitClusters false lines

end WidgetSchema.Generated
