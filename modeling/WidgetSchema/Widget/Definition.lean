-- Widget definitions as they are authored: data to start from, and markup for the editor.
import WidgetSchema.Node.Record
import WidgetSchema.Text.Blank
namespace WidgetSchema

structure Definition where
  name : String
  /-- The name for people, which is the name itself where none is given. -/
  displayName : String
  /-- The data of a new instance, an object. -/
  defaults : Node
  /-- The lines of the markup. -/
  html : List String
  /-- Data that is passed through. -/
  presets : Option Node := none
  /-- Normalization rules as they are written. -/
  normalization : Option Node := none
  deriving DecidableEq

/-- A member that a definition has to have, and the form it has to have. -/
inductive RequiredMember where
  | defaults
  | name
  | html
  | htmlTexts
  deriving DecidableEq

def RequiredMember.text : RequiredMember → String
  | defaults => "defaults object"
  | name => "widgetname"
  | html => "html array"
  | htmlTexts => "html array of strings"

/-- What is wrong with a definition. -/
inductive DefinitionError where
  | notJson
  | missing (m : RequiredMember)
  deriving DecidableEq

namespace Definition

def memberNames : List String :=
  ["widgetname", "displayName", "defaults", "html", "presets", "normalization"]

/-- The members of a definition by name, where they are there and not null. The form as an array
has all members. -/
def members? (w : Written) : Option (List (String × Node)) := do
  let r ← Record.ofWritten? memberNames w
  match w with
  | .array items => if items.length ≠ memberNames.length then none
  | _ => pure ()
  let found ← memberNames.mapM fun name => do
    let v ← r.optional name (Written.toNode? (Written.maxDepth - 1))
    return (v.filter fun v => !v.isNull).map fun v => (name, v)
  return found.filterMap id

/-- The required member, if there is one of the right form. -/
def required {α : Type} (m : RequiredMember) : Option α → Except DefinitionError α
  | some a => .ok a
  | none => .error (.missing m)

/-- A definition from its members. -/
def ofMembers (ms : List (String × Node)) : Except DefinitionError Definition := do
  let defaults ← required .defaults ((Members.get? "defaults" ms).filter Node.isObject)
  let name ← required .name (((Members.get? "widgetname" ms).bind Node.string?).filter
    fun name => !Text.isBlankText name)
  let lines ← required .html ((Members.get? "html" ms).bind Node.array?)
  let html ← required .htmlTexts (lines.mapM Node.string?)
  let displayName := (((Members.get? "displayName" ms).bind Node.string?).map Text.trim).filter
    (· ≠ "")
  return {
    name, defaults, html
    displayName := displayName.getD name
    presets := Members.get? "presets" ms
    normalization := Members.get? "normalization" ms }

/-- Reads a definition. -/
def ofText (json : String) : Except DefinitionError Definition :=
  match (Written.ofText? json).bind members? with
  | none => .error .notJson
  | some ms => ofMembers ms

end Definition

end WidgetSchema
