-- Declarations: the controls that markup declares, before their kinds are known.
import WidgetSchema.Control.Basic
import WidgetSchema.Control.Coercion
import WidgetSchema.Markup.Attribute
import WidgetSchema.Markup.Entity
import WidgetSchema.Markup.Field
import WidgetSchema.Node.Text
import WidgetSchema.Text.Slug
namespace WidgetSchema

open Text Markup

/-! ## Attribute values -/

/-- The label of a group of fields. -/
def groupLabel (group : String) : String :=
  match group with
  | "wgtappearance" => "Widget appearance"
  | "wgtlayout" => "Widget layout"
  | "podstageappearance" => "Stage/Pod appearance"
  | "podstagelayout" => "Stage/Pod layout"
  | other => Text.replace other "-" " "

/-- A truth value in words. -/
def flagValue? (s : String) : Option Bool := Coercion.looseBool? (.string s)

/-- A finite number. -/
def numberValue? (s : String) : Option Float := Coercion.number? (.string s)

/-- What is wrong with choices as they are written. -/
inductive OptionsError where
  | notJson
  | notArray
  deriving DecidableEq

namespace OptionsError

def message : OptionsError → String
  | notJson => "options are not valid JSON"
  | notArray => "options must be a JSON array"

end OptionsError

def memberText (entry : Node) (key : String) : String :=
  ((entry.member? key).map Node.display).getD ""

/-- The choice that an entry of a list stands for. Entries without label and value are
dropped, and so is everything that is no object. -/
def choice? (entry : Node) : Option Choice :=
  if entry.isObject then
    let c : Choice := ⟨memberText entry "label", memberText entry "value"⟩
    if c.label = "" && c.value = "" then none else some c
  else none

/-- Reads the choices of an attribute. None of use are the same as none at all. -/
def readChoices (raw : String) : Except OptionsError (Option (List Choice)) :=
  match Node.ofText? (Entity.decode raw) with
  | none => .error .notJson
  | some (.array entries) =>
    match entries.filterMap choice? with
    | [] => .ok none
    | c :: cs => .ok (some (c :: cs))
  | some _ => .error .notArray

/-- The spellings of the attribute that allows images. -/
def allowImageNames : List String := ["allowImage", "allow-image"]

/-- The modes that a fill control lists. -/
def fillModes? (raw : String) : Option (List String) :=
  match ((Text.split ',' raw).map fun m => asciiLower (trim m)).filter (· ≠ "") with
  | [] => none
  | m :: ms => some (m :: ms)

def mentionsBackground (s : String) : Bool :=
  occurs "background".toList (s.toList.flatMap lowerForm)

/-- Whether a fill control takes images: as its attribute says, or else as its modes say, or
else if its place or label speaks of a background. -/
def fillAllowsImage (attrs : Attributes) (path label : String) : Bool :=
  match (attrs.first? allowImageNames).bind flagValue? with
  | some allowed => allowed
  | none =>
    match (attrs.first? ["fillModes", "fill-modes"]).bind fillModes? with
    | some modes => modes.any fun m => m == "image" || m == "video"
    | none => mentionsBackground path || mentionsBackground label

/-! ## Declarations -/

/-- A control as markup declares it. -/
structure Declaration where
  panelId : String
  groupId : Option String := none
  type : String
  path : String
  label : Option String := none
  showIf : Option String := none
  options : Option (List Choice) := none
  min : Option Float := none
  max : Option Float := none
  /-- Whether a fill control takes images. -/
  allowImage : Option Bool := none
  /-- The same, only where an attribute says so. -/
  allowImageOverride : Option Bool := none
  deriving DecidableEq

namespace Declaration

/-- A bare place that markup binds. -/
def generic (panelId path : String) : Declaration := { panelId, type := genericType, path }

def score (d : Declaration) : Nat := rank (d.options.any (!·.isEmpty)) d.type d.label

/-- Whether two underscores stand on both sides of at least one character, with no dot
between. -/
def hasWildcardToken : List Char → Bool
  | [] => false
  | c :: cs =>
    (match c, cs with
      | '_', '_' :: rest => occurs ['_', '_'] ((rest.takeWhile (· ≠ '.')).drop 1)
      | _, _ => false) || hasWildcardToken cs

def looksLikePath (s : String) : Bool := s.toList.contains '.' || hasWildcardToken s.toList

/-- The places that a field names besides its own, as bare declarations. -/
def derived (panelId : String) (attrs : Attributes) : List Declaration :=
  let named := [attrs.get? "labelPath", attrs.first? ["reorderLabelPath", "reorder-label-path"]]
  ((named.filterMap id).map trim).filterMap fun path =>
    if path ≠ "" && looksLikePath path then some (generic panelId path) else none

/-- The error of a declaration: its path, and what is wrong with its choices. -/
structure ChoicesError where
  path : String
  error : OptionsError
  deriving DecidableEq

def ChoicesError.message (e : ChoicesError) : String :=
  "invalid options for control \"" ++ e.path ++ "\": " ++ e.error.message

def readOptions (path : String) (raw : Option String) :
    Except ChoicesError (Option (List Choice)) :=
  match raw with
  | none => .ok none
  | some raw =>
    match readChoices raw with
    | .ok cs => .ok cs
    | .error e => .error ⟨path, e⟩

/-- The declarations of one field tag itself. It declares something if it has a type and a
path. -/
def ofTag (panelId : String) (t : FieldTag) : Except ChoicesError (List Declaration) :=
  let attrs := Attributes.ofChars t.attrs
  match attrs.get? "type", attrs.get? "path" with
  | some type, some path => do
    let options ← readOptions path (attrs.get? "options")
    let label := attrs.get? "label"
    let isFill := type == "dropdown-fill"
    let declared : Declaration :=
      { panelId, type, path, label, options
        groupId := t.group.map String.ofList
        showIf := attrs.get? "show-if"
        min := (attrs.get? "min").bind numberValue?
        max := (attrs.get? "max").bind numberValue?
        allowImage := if isFill then some (fillAllowsImage attrs path (label.getD "")) else none
        allowImageOverride :=
          if isFill then (attrs.first? allowImageNames).bind flagValue? else none }
    return declared :: derived panelId attrs
  | _, _ => .ok []

/-- The place that a binding attribute at the start of a text names, and what follows it. -/
def boundPath? (cs : List Char) : Option (List Char × List Char) :=
  match dropFolded Char.toLower "data-bob-path=".toList cs with
  | some ('"' :: rest) => (Attributes.upTo? '"' rest).filter fun p => !p.1.isEmpty
  | some ('\'' :: rest) => (Attributes.upTo? '\'' rest).filter fun p => !p.1.isEmpty
  | _ => none

theorem length_boundPath? {cs path rest : List Char} (h : boundPath? cs = some (path, rest)) :
    rest.length < cs.length := by
  unfold boundPath? at h
  split at h
  · rename_i tail ht
    have := length_dropFolded ht
    have := Attributes.length_upTo? (Option.filter_eq_some_iff.1 h).1
    simp only [List.length_cons] at *
    omega
  · rename_i tail ht
    have := length_dropFolded ht
    have := Attributes.length_upTo? (Option.filter_eq_some_iff.1 h).1
    simp only [List.length_cons] at *
    omega
  · cases h

/-- The places that rendered markup binds by an attribute. -/
def boundPaths (cs : List Char) : List String :=
  match h : boundPath? cs with
  | some (path, rest) =>
    have := length_boundPath? h
    String.ofList path :: boundPaths rest
  | none =>
    match cs with
    | [] => []
    | _ :: rest => boundPaths rest
termination_by cs.length

/-- The declarations of markup: of its field tags, of their templates and bodies, and of the
bindings in it. -/
def collect (panelId : String) (markup : List Char) : Except ChoicesError (List Declaration) := do
  let tagged ← (fieldTags markup).attach.mapM fun ⟨t, ht⟩ => do
    have hl := length_of_mem_fieldTags ht
    let own ← ofTag panelId t
    let inTemplate ←
      match hm : (Attributes.ofChars t.attrs).get? "template" with
      | some template =>
        have : (Entity.decodeChars template.toList).length < markup.length := by
          have := Entity.length_decodeChars_le template.toList
          have := Attributes.length_get?_ofChars hm
          omega
        collect panelId (Entity.decodeChars template.toList)
      | none => pure []
    let inBody ←
      match hi : t.inner with
      | some body =>
        have := hl.2 body hi
        collect panelId body
      | none => pure []
    return own ++ inTemplate ++ inBody
  return tagged.flatten ++ (boundPaths markup).map (generic panelId)
termination_by markup.length

/-! ## One declaration per place -/

def sameBinding (a b : Declaration) : Bool := a.panelId == b.panelId && a.path == b.path

/-- Takes up a declaration. It replaces an earlier one of the same panel and place if it says
more, and keeps its position. -/
def keep : List Declaration → Declaration → List Declaration
  | [], d => [d]
  | k :: ks, d =>
    if sameBinding k d then (if k.score < d.score then d :: ks else k :: ks) else k :: keep ks d

/-- One declaration for every panel and place: the first of those that say the most. -/
def distinct (ds : List Declaration) : List Declaration := ds.foldl keep []

end Declaration

end WidgetSchema
