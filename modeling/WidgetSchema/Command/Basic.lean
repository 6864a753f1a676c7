-- What the program can be told to do.
namespace WidgetSchema

inductive Command where
  /-- Sets up a project in a directory. -/
  | init (path : String) (name : Option String)
  /-- Compiles one widget or all, where forced also those that have not changed. -/
  | compile (widget : Option String) (force : Bool)
  /-- Applies edits to the data of an instance. -/
  | apply (widget data ops : String) (permissive deferred : Bool)
  | validate (widget data : String)
  /-- Applies the texts of an overlay to data. -/
  | overlay (data ops allowlist : String)
  /-- Shows the controls of a widget, or the one that governs a place. -/
  | inspect (widget : String) (path : Option String)
  deriving DecidableEq

/-- A command with what holds for all of them. -/
structure Invocation where
  /-- The configuration file, or the directory of the project. -/
  config : String := "tooldrawer.yaml"
  /-- The address of the files of widgets and components, where the configuration does not
  count. -/
  assetBaseUrl : Option String := none
  command : Command
  deriving DecidableEq

end WidgetSchema
