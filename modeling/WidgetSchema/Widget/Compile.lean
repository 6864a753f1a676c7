-- Compiling a widget: from its definition to the panels, the controls and the rules that the
-- editor works with.
import WidgetSchema.Control.Validation
import WidgetSchema.Declaration.Inference
import WidgetSchema.Fragment.Render
import WidgetSchema.Generated.Sections
import WidgetSchema.Widget.Basic
import WidgetSchema.Widget.Definition
namespace WidgetSchema

open Markup

structure CompileOptions where
  /-- The address under which the files of widgets and components are found. -/
  assetBaseUrl : String := "http://localhost:4000"
  /-- Whether the controls have to accept the defaults. -/
  checkDefaults : Bool := true

/-- Why a widget cannot be compiled. -/
inductive CompileError where
  | definition (e : DefinitionError)
  | normalization (e : NormalizationError)
  | noPanels
  | controls (e : ControlsError)
  | render (e : RenderError)
  /-- The defaults break a rule of the controls. -/
  | defaults (v : Violation)

def CompileError.message : CompileError → String
  | definition .notJson => "invalid widget JSON"
  | definition (.missing m) => "widget JSON missing " ++ m.text
  | normalization e => e.message
  | noPanels => "no <bob-panel> definitions found in widget markup"
  | controls e => e.message
  | render e => e.message
  | defaults v => "defaults are invalid at \"" ++ v.path ++ "\": " ++ v.message

namespace Definition

def failAs {ε α : Type} (wrap : ε → CompileError) : Except ε α → Except CompileError α
  | .ok a => .ok a
  | .error e => .error (wrap e)

def rules (d : Definition) : Except CompileError (Option Normalization) :=
  match d.normalization with
  | none => .ok none
  | some raw => failAs .normalization (Normalization.read raw)

/-- The panels of a definition with the generated sections. There is at least one. -/
def panels (d : Definition) : Except CompileError (List Panel) :=
  match Markup.panels (Text.join "\n" (Generated.addSections d.html d.defaults)) with
  | [] => .error .noPanels
  | p :: ps => .ok (p :: ps)

/-- Renders panels one after the other. The components of each are noted before those that its
fragment adds. -/
def renderPanels (lib : Library) : Usages → List Panel → Rendering (List CompiledPanel × Usages)
  | usages, [] => return ([], usages)
  | usages, p :: ps => do
    let markup := p.markup.toList
    let (html, usages) ← Rendering.panel lib ((usages.addTypes markup).addHints markup) markup
    let (rest, usages) ← renderPanels lib usages ps
    return (⟨p.id, panelLabel p.id, String.ofList html⟩ :: rest, usages)

def checkDefaults (d : Definition) (controls : List Control) : Except CompileError Unit :=
  match violations d.defaults controls with
  | [] => .ok ()
  | v :: _ => .error (.defaults v)

/-- Compiles a definition, and tells which components were read for it. -/
def compile (d : Definition) (options : CompileOptions) (lib : Library) :
    Except CompileError (Widget × ComponentCache) := do
  let normalization ← d.rules
  let panels ← d.panels
  let controls ← failAs .controls (Declaration.controls panels d.defaults)
  let ((rendered, usages), cache) ← failAs .render ((renderPanels lib {} panels).run [])
  if options.checkDefaults then d.checkDefaults controls
  return ({
    name := d.name, displayName := d.displayName, defaults := d.defaults
    panels := rendered, controls, presets := d.presets, normalization
    assets := WidgetAssets.of lib options.assetBaseUrl d.name usages }, cache)

/-- Compiles the text of a definition. -/
def compileText (json : String) (options : CompileOptions) (lib : Library) :
    Except CompileError (Widget × ComponentCache) := do
  let d ← failAs .definition (ofText json)
  d.compile options lib

end Definition

end WidgetSchema
