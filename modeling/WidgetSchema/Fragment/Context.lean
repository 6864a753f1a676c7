-- The context that a field is rendered in: the defaults of its component, the changes for its
-- size, and what its attributes say.
import WidgetSchema.Component.Basic
import WidgetSchema.Declaration.Basic
import WidgetSchema.Template.Render
namespace WidgetSchema

open Text

/-! ## Ids -/

def isIdChar (c : Char) : Bool := isAsciiDigit c || ('a' ≤ c && c ≤ 'z') || c == '-'

/-- The text without a dash behind a dash. -/
def squeezeDashes : List Char → List Char
  | a :: b :: cs =>
    if a = '-' && b = '-' then squeezeDashes (b :: cs) else a :: squeezeDashes (b :: cs)
  | cs => cs

/-- The text as part of an id: in small letters, with one dash for every run of others. -/
def idForm (s : String) : String :=
  String.ofList (squeezeDashes
    ((s.toList.flatMap lowerForm).map fun c => if isIdChar c then c else '-'))

/-! ## Fields -/

/-- A field to render: its component and its attributes. -/
structure Field where
  component : Component
  attrs : Attributes

namespace Field

def specContext (f : Field) : Members Node :=
  ((f.component.defaults.context).bind Node.object?).getD []

def textOf? (context : Members Node) (key : String) : Option String :=
  ((Members.get? key context).bind Node.string?).filter (· ≠ "")

/-- The size of a field: its own, or that of its component, or else the medium one. -/
def size (f : Field) : String :=
  ((f.attrs.get? "size").or (textOf? f.specContext "size")).getD "md"

/-- The members of a context with others put over them. -/
def layered (base top : Members Node) : Members Node :=
  top.foldl (fun ms (k, v) => Members.set k v ms) base

/-- The defaults of the component at the size of the field. -/
def base (f : Field) : Members Node :=
  let sized := ((Members.get? f.size f.component.defaults.sizeContext).bind Node.object?).getD []
  Members.set "size" (.string f.size) (layered f.specContext sized)

/-- The value under the spellings of an attribute, or in the defaults, or else another one. -/
def pick (f : Field) (names : List String) (key fallback : String) : String :=
  ((f.attrs.first? names).or (textOf? f.base key)).getD fallback

def label (f : Field) : String := f.pick ["label"] "label" "Label"

def placeholder (f : Field) : String := f.pick ["placeholder"] "placeholder" "Select a fill"

def path (f : Field) : String := (f.attrs.get? "path").getD ""

/-- The template of a field before the fields in it are rendered. -/
inductive TemplateOrigin where
  | own (cs : List Char)
  | inherited (s : String)
  | absent

/-! ## Choices -/

/-- An entry of the choices of a field, with the class and size of the field under those of its
own members. -/
def dressEntry (f : Field) (entry : Node) : Node :=
  match entry with
  | .object members =>
    let bodyClass :=
      match Members.get? "bodyClass" f.base with
      | some v => [("bodyClass", v)]
      | none => []
    .object (layered (Members.set "size" (.string f.size) bodyClass) members)
  | other => other

def dress (f : Field) (options : Node) : Node :=
  match options with
  | .array entries => .array (entries.map f.dressEntry)
  | other => other

/-- The text of the choices as an attribute gives it. -/
def optionsRaw? (f : Field) : Option String := (f.attrs.get? "options").map Entity.decode

/-- The choices of a field: those of its attribute if it holds an array, or else those of its
component. The attribute has to be JSON. -/
def options? (f : Field) : Except Declaration.ChoicesError (Option Node) :=
  let own := Members.get? "options" f.specContext
  match f.optionsRaw? with
  | none => .ok (own.map f.dress)
  | some raw =>
    match Node.ofText? raw with
    | none => .error ⟨if f.path = "" then f.component.name else f.path, .notJson⟩
    | some (.array entries) => .ok (some (f.dress (.array entries)))
    | some _ => .ok (own.map f.dress)

/-! ## The whole context -/

/-- Members that an attribute or the defaults give: the key, the spellings of the attribute, and
the value where there is neither. -/
def picked (f : Field) : List (String × List String × String) :=
  [("addLabel", ["addLabel", "add-label"], "Add item"),
    ("labelPath", ["labelPath"], ""),
    ("labelInputLabel", ["labelInputLabel"], f.label),
    ("labelPlaceholder", ["labelPlaceholder"], ""),
    ("labelSize", ["labelSize"], f.size),
    ("toggleLabel", ["toggleLabel"], ""),
    ("togglePath", ["togglePath"], ""),
    ("reorderLabel", ["reorderLabel", "reorder-label"], "Reorder items"),
    ("reorderTitle", ["reorderTitle", "reorder-title"], "Reorder items"),
    ("reorderLabelPath", ["reorderLabelPath", "reorder-label-path"], ""),
    ("reorderMode", ["reorderMode", "reorder-mode"], "inline"),
    ("reorderThreshold", ["reorderThreshold", "reorder-threshold"], ""),
    ("defaultItem", ["defaultItem", "default-item"], "")]

/-- The value of a field that is bound to no place. -/
def value (f : Field) : String := if f.path = "" then (f.attrs.get? "value").getD "" else ""

def isFill (f : Field) : Bool := f.component.name == "dropdown-fill"

def headerLabel (f : Field) : String :=
  (f.attrs.get? "headerLabel").getD (if f.isFill then "Color fill" else "")

def id (f : Field) : String :=
  idForm (f.component.name ++ "-" ++ (if f.path = "" then f.label else f.path))

/-- Members that only attributes give. -/
def plain (f : Field) (template : String) : List (String × Node) :=
  [("id", .string f.id),
    ("indexToken", .string
      ((f.attrs.first? ["indexToken", "index-token", "data-index-token"]).getD "__INDEX__")),
    ("value", .string f.value),
    ("path", .string f.path),
    ("headerLabel", .string f.headerLabel),
    ("headerIcon", .string ((f.attrs.get? "headerIcon").getD "")),
    ("optionsRaw", .string (f.optionsRaw?.getD "")),
    ("objectType", .string ((f.attrs.first? ["objectType", "object-type"]).getD "")),
    ("template", .string template),
    ("label", .string f.label),
    ("placeholder", .string f.placeholder)]

/-- Puts a text where a member is missing or null. -/
def setBlank (context : Members Node) (key fallback : String) : Members Node :=
  match Members.get? key context with
  | none | some .null => Members.set key (.string fallback) context
  | some _ => context

/-- Members whose placeholders are left as they are. -/
def verbatim : List String := ["template", "optionsRaw"]

/-- The context of a field, with its rendered template. -/
def context (f : Field) (options : Option Node) (template : String) : Node :=
  let picks := f.picked.map fun (key, names, fallback) =>
    (key, Node.string (f.pick names key fallback))
  let options := options.toList.map fun v => ("options", v)
  let fill :=
    if f.isFill then [("allowImage", .bool (fillAllowsImage f.attrs f.path f.label))] else []
  let full := layered f.base (picks ++ f.plain template ++ options ++ fill)
  let full := setBlank full "labelClass" "label-s"
  let full := setBlank full "bodyClass" "body-s"
  let full := setBlank full "popoverLabel" f.placeholder
  Template.fillContext (.object full) verbatim

end Field

end WidgetSchema
