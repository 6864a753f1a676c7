-- Where components come from: a list in memory, or a directory with one directory for every
-- component.
import WidgetSchema.Component.Basic
import WidgetSchema.Project.Place
namespace WidgetSchema

open Text

/-- What is stored for a component. -/
structure ComponentTexts where
  html : Option String := none
  spec : Option String := none
  /-- Whether the component has a style sheet. -/
  styles : Bool := false
  /-- Whether the component has a script. -/
  script : Bool := false
  deriving DecidableEq

inductive Shelf where
  | memory
  | directory (root : String)
  deriving DecidableEq

structure Library where
  shelf : Shelf
  components : List (String × ComponentTexts)
  deriving DecidableEq

/-- Why a component is not available. -/
inductive ComponentError where
  | missing (name location : String)
  | badSpec (name : String)
  deriving DecidableEq

def ComponentError.message : ComponentError → String
  | missing name location => "missing stencil for component " ++ name ++ " at " ++ location
  | badSpec name => "invalid spec for component " ++ name

namespace Library

/-- The names that a component in a directory may have. -/
def isName (name : String) : Bool :=
  name ≠ "" && name.toList.all fun c => isAsciiAlphanumeric c || c == '-' || c == '_'

/-- What is stored under a name, unless the shelf does not take the name. -/
def texts? (lib : Library) (name : String) : Option ComponentTexts :=
  match lib.shelf with
  | .memory => Members.get? name lib.components
  | .directory _ => if isName name then Members.get? name lib.components else none

/-- The files of a component. In memory a specification alone makes a component with empty
markup. -/
def files? (lib : Library) (name : String) : Option ComponentFiles := do
  let texts ← lib.texts? name
  match lib.shelf, texts.html, texts.spec with
  | _, some html, spec => some ⟨html, spec⟩
  | .memory, none, some spec => some ⟨"", some spec⟩
  | _, none, _ => none

def hasStyles (lib : Library) (name : String) : Bool := (lib.texts? name).any (·.styles)

def hasScript (lib : Library) (name : String) : Bool := (lib.texts? name).any (·.script)

/-- Where the markup of a component is looked for. -/
def location (lib : Library) (name : String) : String :=
  match lib.shelf with
  | .memory => "memory:" ++ name
  | .directory root => Place.join (Place.join root name) (name ++ ".html")

/-- A component by its name. -/
def component (lib : Library) (name : String) : Except ComponentError Component :=
  match lib.files? name with
  | none => .error (.missing name (lib.location name))
  | some files =>
    match Component.ofFiles? name files with
    | none => .error (.badSpec name)
    | some c => .ok c

/-- The library with other markup for a component, or with a new component. -/
def write (lib : Library) (name html : String) : Library :=
  let texts := (Members.get? name lib.components).getD {}
  { lib with components := Members.set name { texts with html := some html } lib.components }

/-- All templates that components of the library hand down. -/
def templates (lib : Library) : List String :=
  lib.components.flatMap fun (name, _) =>
    match lib.component name with
    | .ok c => c.defaults.templates
    | .error _ => []

end Library

end WidgetSchema
