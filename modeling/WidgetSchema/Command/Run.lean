-- Carrying out commands over the files of a project.
import WidgetSchema.Command.Arguments
import WidgetSchema.Command.Starter
import WidgetSchema.Edit.Editor
import WidgetSchema.Normalization.Apply
import WidgetSchema.Overlay.Op
import WidgetSchema.Widget.Compile
namespace WidgetSchema

/-- Why a command cannot be carried out. -/
inductive CommandError where
  | config (e : ConfigError)
  | widgetNotFound (name : String)
  | unlisted
  | notCreated (path : String)
  | notCompilable (name : String)
  | notWritten (path : String)
  | notCompiled (name path : String)
  | notRead (path : String)
  | notJson (path : String)
  | opsNotArray (path : String)
  | ungoverned (path widget : String)
  | noProjectName
  | alreadyProject (directory : String)
  /-- A file of a new project cannot be written. -/
  | refused (path : String)
  deriving DecidableEq

def CommandError.message : CommandError → String
  | config _ => "Failed to load configuration"
  | widgetNotFound name => "Widget not found: " ++ name
  | unlisted => "Failed to list widgets"
  | notCreated path => "Failed to create " ++ path
  | notCompilable name => "Failed to compile widget '" ++ name ++ "'"
  | notWritten path => "Failed to write " ++ path
  | notCompiled name path =>
    "Widget '" ++ name ++ "' is not compiled (expected " ++ path ++
      "); run `tooldrawer compile` first"
  | notRead path => "Failed to read " ++ path
  | notJson path => "Invalid JSON in " ++ path
  | opsNotArray path => "Ops file " ++ path ++ " must hold a JSON array"
  | ungoverned path widget => "No control governs path '" ++ path ++ "' in '" ++ widget ++ "'"
  | noProjectName => "Could not determine project name from path"
  | alreadyProject directory =>
    "Directory '" ++ directory ++ "' already contains a " ++ Config.fileName
  | refused path => "Cannot write " ++ path

/-- What a command answers: the value that it prints, if it prints one, and whether the data or
the edits were accepted. -/
structure CommandResult where
  printed : Option Node := none
  accepted : Bool := true

namespace Command

variable {m : Type → Type} [Monad m] (fs : FileSystem m)

/-! ## Reading -/

def orFail {α : Type} (e : CommandError) : Option α → ExceptT CommandError m α
  | some a => pure a
  | none => throw e

/-- Goes on if an order could be carried out. -/
def must (e : CommandError) (order : m Bool) : ExceptT CommandError m Unit := do
  if !(← order) then throw e

def loadConfig (path : String) : ExceptT CommandError m Config := do
  match ← ExceptT.lift (Config.load fs path) with
  | .ok c => return c
  | .error e => throw (.config e)

/-- Reads a file of JSON. -/
def readJson {α : Type} (ofText? : String → Option α) (path : String) :
    ExceptT CommandError m α := do
  let text ← orFail (.notRead path) (← fs.read? path)
  orFail (.notJson path) (ofText? text)

def readOps (path : String) : ExceptT CommandError m (List Node) := do
  let ops ← readJson fs Node.ofText? path
  orFail (.opsNotArray path) ops.array?

def allowlist? (text : String) : Option Allowlist :=
  (Written.ofText? text).bind (Written.listOf? AllowEntry.ofWritten?)

/-- The compiled widget with a name. -/
def loadWidget (c : Config) (name : String) : ExceptT CommandError m Widget := do
  let path := c.compiledPath name
  if !(← fs.exists? path) then throw (.notCompiled name path)
  readJson fs Widget.ofText? path

/-- The data of an instance, repaired by the rules of its widget. -/
def loadData (w : Widget) (path : String) : ExceptT CommandError m Node := do
  let stored ← readJson fs Node.ofText? path
  return Normalization.applyAll w.normalization stored

/-! ## Commands -/

def writeStarter (directory : String) : List (String × String) → ExceptT CommandError m Unit
  | [] => return ()
  | (file, text) :: rest => do
    let path := Place.join directory file
    match Place.parent? file with
    | none | some "" => pure ()
    | some above => must (.refused path) (fs.createDirectories (Place.join directory above))
    must (.refused path) (fs.write path text)
    writeStarter directory rest

/-- The name of a project in a directory, where none is given. -/
def projectName (canonical : String) : Option String :=
  ((Place.parts canonical).getLast?).filter (· ≠ "")

def initProject (path : String) (name : Option String) : ExceptT CommandError m CommandResult := do
  if !(← fs.exists? path) then must (.notCreated path) (fs.createDirectories path)
  let canonical ← orFail (.refused path) (← fs.canonical? path)
  let name ← orFail .noProjectName (name.or (projectName canonical))
  if ← fs.exists? (Place.join path Config.fileName) then throw (.alreadyProject path)
  writeStarter fs path (Starter.files name)
  return {}

/-- Whether the stored form of a widget has the same content. -/
def isStored (w : Widget) (path : String) : m Bool := do
  let stored := (← fs.read? path).bind Widget.ofText?
  return stored.any fun old => old.contentHash == w.contentHash

/-- Compiles a widget. What is stored stays as it is where its content does not change, unless
forced. -/
def compileWidget (c : Config) (options : CompileOptions) (lib : Library) (force : Bool)
    (name : String) : ExceptT CommandError m Unit := do
  let text ← orFail (.notCompilable name) (← fs.read? (c.definitionPath name))
  match Definition.compileText text options lib with
  | .error _ => throw (.notCompilable name)
  | .ok (w, _) =>
    let path := c.compiledPath name
    if !force then
      if ← ExceptT.lift (isStored fs w path) then return ()
    must (.notWritten path) (fs.write path w.text)

/-- The widgets to compile. -/
def chosenWidgets (c : Config) (widget : Option String) :
    ExceptT CommandError m (List String) := do
  match widget with
  | some name =>
    if !(← fs.isFile (c.definitionPath name)) then throw (.widgetNotFound name)
    return [name]
  | none => orFail .unlisted (← ExceptT.lift (c.widgetNames? fs))

def compileWidgets (i : Invocation) (widget : Option String) (force : Bool) :
    ExceptT CommandError m CommandResult := do
  let c ← loadConfig fs i.config
  let names ← chosenWidgets fs c widget
  if names.isEmpty then return {}
  let output := c.outputDirectory
  must (.notCreated output) (fs.createDirectories output)
  let options : CompileOptions := { assetBaseUrl := i.assetBaseUrl.getD c.project.assetBaseUrl }
  let lib ← ExceptT.lift (Library.ofDirectory fs c.stencilsDirectory)
  names.forM (compileWidget fs c options lib force)
  return {}

def resultOf (o : Outcome) : CommandResult :=
  { printed := some o.toNode
    accepted := match o with
      | .ok _ => true
      | .error _ => false }

def applyEdits (i : Invocation) (widget data ops : String) (permissive deferred : Bool) :
    ExceptT CommandError m CommandResult := do
  let c ← loadConfig fs i.config
  let w ← loadWidget fs c widget
  let data ← loadData fs w data
  let ops ← readOps fs ops
  let e : Editor :=
    ⟨w.controls, if permissive then .permissive else .strict,
      if deferred then .endOfBatch else .eachOp⟩
  return resultOf (e.apply data ops)

def validateData (i : Invocation) (widget data : String) :
    ExceptT CommandError m CommandResult := do
  let c ← loadConfig fs i.config
  let w ← loadWidget fs c widget
  let data ← loadData fs w data
  let vs := violations data w.controls
  return { printed := some (.array (vs.map Violation.toNode)), accepted := vs.isEmpty }

def applyOverlay (data ops allowlist : String) : ExceptT CommandError m CommandResult := do
  let base ← readJson fs Node.ofText? data
  let ops ← readOps fs ops
  let allow ← readJson fs allowlist? allowlist
  return resultOf (Overlay.apply allow base ops)

def inspectControls (i : Invocation) (widget : String) (path : Option String) :
    ExceptT CommandError m CommandResult := do
  let c ← loadConfig fs i.config
  let w ← loadWidget fs c widget
  match path with
  | none => return { printed := some (.array (w.controls.map Control.toNode)) }
  | some path =>
    let control ← orFail (.ungoverned path widget) (Control.governing? w.controls path)
    return { printed := some control.toNode }

/-- Carries out a command. -/
def run (i : Invocation) : ExceptT CommandError m CommandResult :=
  match i.command with
  | .init path name => initProject fs path name
  | .compile widget force => compileWidgets fs i widget force
  | .apply widget data ops permissive deferred =>
    applyEdits fs i widget data ops permissive deferred
  | .validate widget data => validateData fs i widget data
  | .overlay data ops allowlist => applyOverlay fs data ops allowlist
  | .inspect widget path => inspectControls fs i widget path

end Command

/-! ## The program as a whole -/

/-- How a run of the program ends: its exit code, what it prints, and the failure if there is
one. -/
structure ProgramResult where
  exit : Nat
  printed : String := ""
  failure : Option String := none
  deriving DecidableEq

namespace ProgramResult

def versionText : String := "tooldrawer 0.1.0\n"

def helpText : String :=
  "Usage: tooldrawer [OPTIONS] <COMMAND>\n\nCommands: " ++
    Text.join ", " Arguments.commandNames ++ "\n"

def ofStop : Arguments.Stop → ProgramResult
  | .version => { exit := 0, printed := versionText }
  | .help => { exit := 0, printed := helpText }
  | .misuse => { exit := 2 }

def ofResult : Except CommandError CommandResult → ProgramResult
  | .error e => { exit := 1, failure := some e.message }
  | .ok r =>
    { exit := if r.accepted then 0 else 1
      printed := (r.printed.map fun v => v.pretty ++ "\n").getD "" }

/-- Runs the program with its arguments. -/
def ofArguments {m : Type → Type} [Monad m] (fs : FileSystem m) (environmentUrl : Option String)
    (args : List String) : m ProgramResult := do
  match Arguments.parse environmentUrl args with
  | .error stop => return ofStop stop
  | .ok i => return ofResult (← (Command.run fs i).run)

end ProgramResult

end WidgetSchema
