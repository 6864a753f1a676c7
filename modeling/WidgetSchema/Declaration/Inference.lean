-- The kinds of declared controls: from their choices, from their component, or else from the
-- default that stands at their place.
import WidgetSchema.Declaration.Basic
import WidgetSchema.Markup.Panel
import WidgetSchema.Node.Path
namespace WidgetSchema

open Markup

/-- The kind of a control, with what only some kinds have. -/
structure InferredKind where
  kind : Kind
  enumValues : Option (List String) := none
  itemIdPath : Option String := none
  deriving DecidableEq

namespace Declaration

/-- The place of the default that a pattern is judged by: the first item at a wildcard. -/
def samplePath (pattern : String) : Path :=
  (Path.solidSegments pattern).map fun s => if Path.isWildcard s then "0" else s

/-- The values of choices, every one once. Empty values do not count. -/
def distinctValues (cs : List Choice) : List String :=
  cs.foldl (fun vs c => if c.value = "" || vs.contains c.value then vs else vs ++ [c.value]) []

/-- Items that are objects are told apart by their id. -/
def itemId? : Option Node → Option String
  | some (.array items) => if items.any Node.isObject then some "id" else none
  | _ => none

/-- The kind of a default. Null has none. -/
def kindOfSample? : Node → Option InferredKind
  | .bool _ => some { kind := .boolean }
  | .number _ => some { kind := .number }
  | .string _ => some { kind := .string }
  | .array items => some { kind := .array, itemIdPath := itemId? (some (.array items)) }
  | .object _ => some { kind := .object }
  | .null => none

/-- The kind of a declaration, where one can be told. -/
def inferKind? (d : Declaration) (defaults : Node) : Option InferredKind :=
  match d.options with
  | some (c :: cs) =>
    let values := distinctValues (c :: cs)
    some { kind := .enum, enumValues := if values.isEmpty then none else some values }
  | _ =>
    let sample := defaults.getAt (samplePath d.path)
    match d.type with
    | "toggle" => some { kind := .boolean }
    | "slider" => some { kind := .number }
    | "dropdown-fill" =>
      some { kind := if d.allowImageOverride = some false then .color else .json }
    | "object-manager" => some { kind := .array, itemIdPath := some "id" }
    | "repeater" => some { kind := .array, itemIdPath := itemId? sample }
    | _ => sample.bind kindOfSample?

/-- The control of a declaration. -/
def toControl? (d : Declaration) (defaults : Node) : Option Control :=
  (d.inferKind? defaults).map fun inferred =>
    { panelId := d.panelId, groupId := d.groupId, groupLabel := d.groupId.map groupLabel,
      type := d.type, path := d.path, kind := inferred.kind, label := d.label,
      showIf := d.showIf, options := d.options, min := d.min, max := d.max,
      allowImage := d.allowImage, enumValues := inferred.enumValues,
      itemIdPath := inferred.itemIdPath }

end Declaration

/-- Why the controls of a widget cannot be told. -/
inductive ControlsError where
  | badOptions (e : Declaration.ChoicesError)
  | noKind (path : String)
  deriving DecidableEq

def ControlsError.message : ControlsError → String
  | badOptions e => e.message
  | noKind path => "control \"" ++ path ++ "\" is missing kind metadata"

namespace Declaration

/-- The declarations of all panels, one per panel and place. -/
def ofPanels (ps : List Panel) : Except ChoicesError (List Declaration) := do
  let declared ← ps.mapM fun p => collect p.id p.markup.toList
  return distinct declared.flatten

/-- The controls of declarations, unless the kind of one cannot be told. -/
def toControls (defaults : Node) : List Declaration → Except ControlsError (List Control)
  | [] => .ok []
  | d :: ds =>
    match d.toControl? defaults with
    | none => .error (.noKind d.path)
    | some c => (toControls defaults ds).map (c :: ·)

/-- The controls of a widget. -/
def controls (ps : List Panel) (defaults : Node) : Except ControlsError (List Control) :=
  match ofPanels ps with
  | .error e => .error (.badOptions e)
  | .ok ds => toControls defaults ds

end Declaration

end WidgetSchema
