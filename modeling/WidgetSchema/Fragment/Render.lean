-- The editor fragment of a panel: its markup with every field tag replaced by the markup of its
-- component.
import WidgetSchema.Component.Cache
import WidgetSchema.Component.Usage
import WidgetSchema.Fragment.Context
import WidgetSchema.Markup.Cluster
import WidgetSchema.Markup.Panel
import WidgetSchema.Markup.Simple
namespace WidgetSchema

open Text Markup

/-- Why a panel cannot be rendered. -/
inductive RenderError where
  /-- A cluster with an attribute that it may not have. -/
  | spacing (name : String)
  | component (e : ComponentError)
  | options (e : Declaration.ChoicesError)
  /-- Templates that components hand down stand inside of each other without end. -/
  | endlessTemplate
  deriving DecidableEq

def RenderError.message : RenderError → String
  | spacing name =>
    "<tooldrawer-cluster> does not support " ++ name ++
      "; use the stack gap and fixed cluster gap"
  | component e => e.message
  | options e => e.message
  | endlessTemplate => "the default template of a component holds itself"

/-- Rendering reads components, and keeps those it has read. -/
abbrev Rendering := StateT ComponentCache (Except RenderError)

namespace Rendering

variable (lib : Library)

def component (name : String) : Rendering Component := fun cache =>
  match cache.get lib name with
  | .ok found => .ok found
  | .error e => .error (.component e)

def optionsOf (f : Field) : Rendering (Option Node) :=
  match f.options? with
  | .ok options => pure options
  | .error e => throw (.options e)

/-! ## Fields in templates

A template in an attribute is shorter than the tag around it. A template that a component hands
down can hold any tag, also one that leads to itself, so these stand inside of each other only to
a given depth. -/

section Handed

-- What a template that is handed down renders to.
variable (handed : String → Rendering (List Char))

mutual

/-- The context of a field with the given text of attributes. -/
def context (c : Component) (raw : List Char) : Rendering Node := do
  let f : Field := ⟨c, Attributes.ofChars raw⟩
  let options ← optionsOf f
  let template ←
    match hm : (Attributes.ofChars raw).get? "template" with
    | some own =>
      have : (Entity.decodeChars own.toList).length < raw.length :=
        Nat.lt_of_le_of_lt (Entity.length_decodeChars_le _) (Attributes.length_get?_ofChars hm)
      template (Entity.decodeChars own.toList)
    | none =>
      match Field.textOf? f.base "template" with
      | none => pure []
      | some text => handed text
  return f.context options (String.ofList template)
termination_by raw.length

/-- A template with its fields rendered. A field with a template of its own has it in its slots,
as it is written. -/
def template (cs : List Char) : Rendering (List Char) :=
  replaceTags cs fun t ht => do
    have : t.attrs.length < cs.length := (length_of_mem_items ht).1
    let attrs := Attributes.ofChars t.attrs
    match attrs.get? "type" with
    | none => return none
    | some name =>
      let c ← component lib name
      let context ← context c t.attrs
      let rendered := (c.template.render context).toList
      match attrs.get? "template" with
      | some own => return some (fillSlots (Entity.decodeChars own.toList) rendered)
      | none => return some rendered
termination_by cs.length

end

end Handed

/-- A template that is handed down with its fields rendered, and inside of it no more than the
given number of levels of such templates. -/
def handedDown : Nat → String → Rendering (List Char)
  | 0, _ => throw .endlessTemplate
  | depth + 1, text => template lib (handedDown depth) text.toList

/-- Enough levels for all templates that can be handed down, if none leads to itself. -/
def levels (cache : ComponentCache) : Nat := (cache.templates ++ lib.templates).length + 1

/-! ## Panels -/

/-- The context of a field of a panel. -/
def fieldContext (c : Component) (raw : List Char) : Rendering Node := do
  context lib (handedDown lib (levels lib (← get))) c raw

/-- Groups whose fields stand without a wrapper. -/
def unwrappedGroups : List String := ["podstagelayout", "podstageappearance"]

def assignment (name value : String) : String := name ++ "=\"" ++ value ++ "\""

/-- The attributes of the wrapper of a field. -/
def wrapperAttributes (group showIf : Option String) : List String :=
  (match group.filter fun g => !unwrappedGroups.contains g with
    | some g => [assignment "data-bob-group" g, assignment "data-bob-group-label" (groupLabel g)]
    | none => []) ++
  (match showIf with
    | some s => [assignment "data-bob-showif" s]
    | none => [])

def wrap (attrs : List String) (rendered : List Char) : List Char :=
  if attrs.isEmpty then rendered
  else ("<div " ++ join " " attrs ++ ">").toList ++ rendered ++ "</div>".toList

section Depth

-- How many levels of templates that are handed down can stand inside of each other.
variable (depth : Nat)

/-- A field tag of a panel as it is rendered, with its type. A tag without type stays. -/
def field (t : FieldTag) : Rendering (Option (String × List Char)) := do
  let attrs := Attributes.ofChars t.attrs
  match attrs.get? "type" with
  | none => return none
  | some name =>
    let c ← component lib name
    let context ← context lib (handedDown lib depth) c t.attrs
    let rendered := (c.template.render context).toList
    let path := ((context.member? "path").bind Node.string?).getD ""
    let bound := if path = "" then rendered else bindPath rendered path.toList
    let wrapper := wrapperAttributes (t.group.map String.ofList) (attrs.get? "show-if")
    return some (name, wrap wrapper bound)

/-- The markup with its fields rendered, and the components that these use. -/
def fields (usages : Usages) (cs : List Char) : Rendering (List Char × Usages) := do
  let run : StateT Usages Rendering (List Char) := replaceTags cs fun t _ => do
    match ← field lib depth t with
    | none => return none
    | some (name, rendered) =>
      modify fun u => u.require name
      return some rendered
  run usages

/-- The fragment of a panel, and the components that it uses on top of the given ones. -/
def panelWithin (usages : Usages) (markup : List Char) : Rendering (List Char × Usages) := do
  match expandClusters markup with
  | .error name => throw (.spacing name)
  | .ok expanded =>
    let (html, usages) ← fields lib depth usages (expandSimple expanded)
    return (html, usages.addHints html)

end Depth

def panel (usages : Usages) (markup : List Char) : Rendering (List Char × Usages) := do
  panelWithin lib (levels lib (← get)) usages markup

end Rendering

end WidgetSchema
