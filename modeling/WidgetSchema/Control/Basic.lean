-- Controls: which places of the data of a widget may be edited, and with what values.
import WidgetSchema.Node.Record
import WidgetSchema.Node.Path
namespace WidgetSchema

/-- The kind of value that a control accepts. -/
inductive Kind where
  | boolean
  | number
  | string
  | enum
  | color
  | json
  | array
  | object
  deriving DecidableEq

namespace Kind

def name : Kind → String
  | boolean => "boolean"
  | number => "number"
  | string => "string"
  | enum => "enum"
  | color => "color"
  | json => "json"
  | array => "array"
  | object => "object"

def all : List Kind := [boolean, number, string, enum, color, json, array, object]

def ofName? (s : String) : Option Kind := all.find? fun k => k.name == s

theorem ofName?_name (k : Kind) : ofName? k.name = some k := by cases k <;> decide

end Kind

/-- A value to choose from, with the text that the editor shows for it. -/
structure Choice where
  label : String
  value : String
  deriving DecidableEq

/-- A binding between a pattern of places and a kind of value. -/
structure Control where
  panelId : String
  groupId : Option String := none
  groupLabel : Option String := none
  /-- The editor component, or `field` for a bare binding. -/
  type : String
  /-- A place in the data. Wildcard segments stand for every position of an array. -/
  path : String
  kind : Kind
  label : Option String := none
  /-- A condition for showing the control, not interpreted here. -/
  showIf : Option String := none
  options : Option (List Choice) := none
  min : Option Float := none
  max : Option Float := none
  allowImage : Option Bool := none
  enumValues : Option (List String) := none
  /-- The member that identifies the items of an array of objects. -/
  itemIdPath : Option String := none
  deriving DecidableEq

/-! ## Rank -/

/-- The component type of a bare binding. -/
def genericType : String := "field"

/-- How much a declaration says: choices outrank a component type, which outranks a label. -/
def rank (hasChoices : Bool) (type : String) (label : Option String) : Nat :=
  (if hasChoices then 100 else 0) + (if type = genericType then 0 else 10) +
    (if label.any (· ≠ "") then 1 else 0)

namespace Control

def score (c : Control) : Nat := rank (c.options.any (!·.isEmpty)) c.type c.label

/-- The values that an enumeration accepts: those listed, or else those of its choices. -/
def allowedValues (c : Control) : Option (List String) :=
  match c.enumValues with
  | some (v :: vs) => some (v :: vs)
  | _ =>
    match ((c.options.getD []).map Choice.value).filter (· ≠ "") with
    | [] => none
    | v :: vs => some (v :: vs)

end Control

/-! ## Written form -/

namespace Choice

def toNode (c : Choice) : Node :=
  .object [("label", .string c.label), ("value", .string c.value)]

def ofWritten? (w : Written) : Option Choice := do
  let r ← Record.ofWritten? ["label", "value"] w
  let label ← r.required "label" Written.string?
  let value ← r.required "value" Written.string?
  return { label, value }

end Choice

/-- A bound is written as a fraction, also where it is whole. -/
def boundNode (x : Float) : Node := ((Number.ofFloat? x).map Node.number).getD .null

namespace Control

/-- The members in the order in which they are written. -/
def memberNames : List String :=
  ["panelId", "groupId", "groupLabel", "type", "path", "kind", "label", "showIf", "options",
    "min", "max", "allowImage", "enumValues", "itemIdPath"]

open Node (present)

def toNode (c : Control) : Node :=
  .object (
    [("panelId", .string c.panelId)] ++
    present "groupId" .string c.groupId ++
    present "groupLabel" .string c.groupLabel ++
    [("type", .string c.type), ("path", .string c.path), ("kind", .string c.kind.name)] ++
    present "label" .string c.label ++
    present "showIf" .string c.showIf ++
    present "options" (fun cs => .array (cs.map Choice.toNode)) c.options ++
    present "min" boundNode c.min ++
    present "max" boundNode c.max ++
    present "allowImage" .bool c.allowImage ++
    present "enumValues" Node.strings c.enumValues ++
    present "itemIdPath" .string c.itemIdPath)

/-- Reads a control. Unknown members are ignored. -/
def ofWritten? (w : Written) : Option Control := do
  let r ← Record.ofWritten? memberNames w
  let panelId ← r.required "panelId" Written.string?
  let groupId ← r.optional "groupId" Written.string?
  let groupLabel ← r.optional "groupLabel" Written.string?
  let type ← r.required "type" Written.string?
  let path ← r.required "path" Written.string?
  let kind ← r.required "kind" (fun v => v.word?.bind Kind.ofName?)
  let label ← r.optional "label" Written.string?
  let showIf ← r.optional "showIf" Written.string?
  let options ← r.optional "options" (Written.listOf? Choice.ofWritten?)
  let min ← r.optional "min" Written.float?
  let max ← r.optional "max" Written.float?
  let allowImage ← r.optional "allowImage" Written.bool?
  let enumValues ← r.optional "enumValues" (Written.listOf? Written.string?)
  let itemIdPath ← r.optional "itemIdPath" Written.string?
  return { panelId, groupId, groupLabel, type, path, kind, label, showIf, options, min, max,
           allowImage, enumValues, itemIdPath }

end Control

end WidgetSchema
