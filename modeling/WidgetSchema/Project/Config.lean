-- The configuration of a project: where its widgets and components are, and where the compiled
-- widgets go.
import WidgetSchema.Component.Library
import WidgetSchema.Project.FileSystem
import WidgetSchema.Text.Blank
import WidgetSchema.Yaml.Basic
namespace WidgetSchema

/-- What a configuration says. The directories are seen from the project. -/
structure Project where
  name : String
  version : String := "0.1.0"
  widgets : String := "widgets"
  stencils : String := "stencils"
  output : String := ".tooldrawer/compiled"
  /-- The address under which the files of widgets and components are found. -/
  assetBaseUrl : String := "http://localhost:4000"
  deriving DecidableEq

/-- A configuration with the directory of its project. -/
structure Config where
  project : Project
  base : String
  deriving DecidableEq

/-- Why there is no configuration. -/
inductive ConfigError where
  | notFound (path : String)
  | unreadable
  | malformed
  | emptyName
  deriving DecidableEq

def ConfigError.message : ConfigError → String
  | notFound path => "configuration file not found: " ++ path
  | unreadable => "configuration file cannot be read"
  | malformed => "configuration file is malformed"
  | emptyName => "invalid configuration: project name cannot be empty"

/-! ## Reading -/

namespace Yaml

/-- The members of a section by name. A section that is left out has none. -/
def members? : Yaml → Option (List (String × Yaml))
  | mapping members => members.mapM fun
    | (scalar key _, value) => some (key, value)
    | _ => none
  | scalar "" true => some []
  | _ => none

/-- The member with a name, which may not come twice. -/
def member? (members : List (String × Yaml)) (name : String) : Option (Option Yaml) :=
  match members.filter (·.1 == name) with
  | [] => some none
  | [(_, value)] => some (some value)
  | _ => none

/-- The text under a name, or else the given one if there is one. -/
def text? (members : List (String × Yaml)) (name : String) (default : Option String) :
    Option String := do
  match ← member? members name with
  | none => default
  | some (scalar text _) => some text
  | some _ => none

/-- The section under a name. -/
def section? (members : List (String × Yaml)) (name : String) :
    Option (List (String × Yaml)) := do
  match ← member? members name with
  | none => some []
  | some value => value.members?

end Yaml

namespace Project

def ofYaml? (y : Yaml) : Option Project := do
  let members ← y.members?
  let name ← Yaml.text? members "name" none
  let defaults : Project := { name }
  let version ← Yaml.text? members "version" (some defaults.version)
  let paths ← Yaml.section? members "paths"
  let widgets ← Yaml.text? paths "widgets" (some defaults.widgets)
  let stencils ← Yaml.text? paths "stencils" (some defaults.stencils)
  let output ← Yaml.text? paths "output" (some defaults.output)
  let assets ← Yaml.section? members "assets"
  let assetBaseUrl ← Yaml.text? assets "base_url" (some defaults.assetBaseUrl)
  return { name, version, widgets, stencils, output, assetBaseUrl }

def ofText (text : String) : Except ConfigError Project :=
  match (Yaml.ofText? text).bind ofYaml? with
  | none => .error .malformed
  | some p => if Text.isBlankText p.name then .error .emptyName else .ok p

end Project

namespace Config

def fileName : String := "tooldrawer.yaml"

variable {m : Type → Type} [Monad m] (fs : FileSystem m)

/-- Loads the configuration of a project from its file, or from the directory of the project. -/
def load (path : String) : m (Except ConfigError Config) := do
  let isDirectory := (← fs.kind? path) == some .directory
  let file := if isDirectory then Place.join path fileName else path
  let base := if isDirectory then path else (Place.parent? path).getD "."
  if !(← fs.exists? file) then return .error (.notFound file)
  match ← fs.read? file with
  | none => return .error .unreadable
  | some text => return (Project.ofText text).map fun project => { project, base }

/-! ## Places of a project -/

def widgetsDirectory (c : Config) : String := Place.join c.base c.project.widgets

def stencilsDirectory (c : Config) : String := Place.join c.base c.project.stencils

def outputDirectory (c : Config) : String := Place.join c.base c.project.output

def definitionFile : String := "spec.json"

/-- The file with the definition of a widget. -/
def definitionPath (c : Config) (widget : String) : String :=
  Place.join (Place.join c.widgetsDirectory widget) definitionFile

/-- The file of a compiled widget. -/
def compiledPath (c : Config) (widget : String) : String :=
  Place.join c.outputDirectory (widget ++ ".json")

/-- The widgets of a project: the directories that hold a definition, in order. -/
def widgetNames? (c : Config) : m (Option (List String)) := do
  if !(← fs.exists? c.widgetsDirectory) then return some []
  match ← fs.names? c.widgetsDirectory with
  | none => return none
  | some names =>
    let found ← names.filterM fun name => fs.isFile (c.definitionPath name)
    return some (found.mergeSort fun a b => !decide (b < a))

end Config

/-! ## Components of a project -/

namespace Library

variable {m : Type → Type} [Monad m] (fs : FileSystem m)

/-- A file of a component, by its ending. -/
def file (root name ending : String) : String :=
  Place.join (Place.join root name) (name ++ ending)

/-- What a directory holds for a component. A specification that cannot be read counts as an
empty one, which is refused. -/
def readTexts (root name : String) : m ComponentTexts := do
  let specPath := file root name ".spec.json"
  let hasSpec ← fs.isFile specPath
  let spec ← fs.read? specPath
  return {
    html := ← fs.readFile? (file root name ".html")
    spec := if hasSpec then some (spec.getD "") else none
    styles := ← fs.isFile (file root name ".css")
    script := ← fs.isFile (file root name ".js") }

/-- The components in a directory. -/
def ofDirectory (root : String) : m Library := do
  let names := (← fs.names? root).getD []
  let components ← (names.filter isName).mapM fun name => do
    return (name, ← readTexts fs root name)
  return { shelf := .directory root, components }

end Library

end WidgetSchema
