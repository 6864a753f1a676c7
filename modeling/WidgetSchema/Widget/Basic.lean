-- Compiled widgets: the editor panels, the controls and the rules of a widget, as they are
-- stored.
import WidgetSchema.Control.Basic
import WidgetSchema.Digest.Sha256
import WidgetSchema.Node.Text
import WidgetSchema.Normalization.Rules
import WidgetSchema.Widget.Assets
namespace WidgetSchema

/-- A panel with its rendered markup. -/
structure CompiledPanel where
  id : String
  label : String
  html : String
  deriving DecidableEq

structure Widget where
  name : String
  displayName : String
  /-- The data of a new instance. -/
  defaults : Node
  panels : List CompiledPanel
  controls : List Control
  presets : Option Node := none
  normalization : Option Normalization := none
  assets : WidgetAssets
  deriving DecidableEq

namespace CompiledPanel

def toNode (p : CompiledPanel) : Node :=
  .object [("id", .string p.id), ("label", .string p.label), ("html", .string p.html)]

def ofWritten? (w : Written) : Option CompiledPanel := do
  let r ← Record.ofWritten? ["id", "label", "html"] w
  let id ← r.required "id" Written.string?
  let label ← r.required "label" Written.string?
  let html ← r.required "html" Written.string?
  return { id, label, html }

end CompiledPanel

namespace Widget

/-- The first panel with an id. -/
def panel? (w : Widget) (id : String) : Option CompiledPanel := w.panels.find? (·.id == id)

/-! ## Written form -/

def memberNames : List String :=
  ["widgetname", "displayName", "defaults", "panels", "controls", "presets", "normalization",
    "assets"]

open Node (present)

def toNode (w : Widget) : Node :=
  .object (
    [("widgetname", .string w.name), ("displayName", .string w.displayName),
      ("defaults", w.defaults), ("panels", .array (w.panels.map CompiledPanel.toNode)),
      ("controls", .array (w.controls.map Control.toNode))] ++
    present "presets" id w.presets ++
    present "normalization" Normalization.toNode w.normalization ++
    [("assets", w.assets.toNode)])

/-- Reads a compiled widget. The data in it stands one container deep. -/
def ofWritten? (v : Written) : Option Widget := do
  let depth := Written.maxDepth - 1
  let r ← Record.ofWritten? memberNames v
  let name ← r.required "widgetname" Written.string?
  let displayName ← r.required "displayName" Written.string?
  let defaults ← r.required "defaults" (Written.toNode? depth)
  let panels ← r.required "panels" (Written.listOf? CompiledPanel.ofWritten?)
  let controls ← r.required "controls" (Written.listOf? Control.ofWritten?)
  let presets ← r.optional "presets" (Written.toNode? depth)
  let normalization ← r.optional "normalization" (Normalization.ofWritten? depth)
  let assets ← r.required "assets" WidgetAssets.ofWritten?
  return { name, displayName, defaults, panels, controls, presets, normalization, assets }

def ofText? (json : String) : Option Widget := (Written.ofText? json).bind ofWritten?

/-- The text that a compiled widget is stored as. -/
def text (w : Widget) : String := w.toNode.pretty

/-- The digest of the content of a widget, whatever the order of its members. -/
def contentHash (w : Widget) : String := Digest.sha256 w.toNode.sorted.text

end Widget

end WidgetSchema
