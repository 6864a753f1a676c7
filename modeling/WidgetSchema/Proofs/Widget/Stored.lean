-- What is read from the text of a compiled widget. Every record in it is written in columns and
-- read from them, and the data in it was read before, so the widget comes back as it is.
import WidgetSchema.Proofs.Node.Columns
import WidgetSchema.Proofs.Node.Stored
import WidgetSchema.Proofs.Widget.Compiled
namespace WidgetSchema

open Written (ofNode)
open Record (bind_eq_some required_text optional_text)

/-! ## Panels and choices -/

namespace CompiledPanel

def columns (p : CompiledPanel) : List (String × Option Node) :=
  [("id", some (.string p.id)), ("label", some (.string p.label)), ("html", some (.string p.html))]

theorem toNode_eq (p : CompiledPanel) : p.toNode = .object (Record.columns p.columns) := rfl

theorem ofWritten?_toNode (p : CompiledPanel) : ofWritten? (ofNode p.toNode) = some p := by
  obtain ⟨r, hr, hget⟩ :=
    Record.ofWritten?_columns ["id", "label", "html"] p.columns rfl (by decide)
  simp only [columns, List.forall_mem_cons] at hget
  obtain ⟨hid, hlabel, hhtml, -⟩ := hget
  rw [toNode_eq]
  refine bind_eq_some hr ?_
  refine bind_eq_some (required_text hid) ?_
  refine bind_eq_some (required_text hlabel) ?_
  exact bind_eq_some (required_text hhtml) rfl

end CompiledPanel

namespace Choice

def columns (c : Choice) : List (String × Option Node) :=
  [("label", some (.string c.label)), ("value", some (.string c.value))]

theorem toNode_eq (c : Choice) : c.toNode = .object (Record.columns c.columns) := rfl

theorem ofWritten?_toNode (c : Choice) : ofWritten? (ofNode c.toNode) = some c := by
  obtain ⟨r, hr, hget⟩ := Record.ofWritten?_columns ["label", "value"] c.columns rfl (by decide)
  simp only [columns, List.forall_mem_cons] at hget
  obtain ⟨hlabel, hvalue, -⟩ := hget
  rw [toNode_eq]
  refine bind_eq_some hr ?_
  refine bind_eq_some (required_text hlabel) ?_
  exact bind_eq_some (required_text hvalue) rfl

end Choice

/-! ## Controls -/

namespace Control

/-- A control whose bounds are numbers that can be written. -/
structure IsStorable (c : Control) : Prop where
  min : ∀ x ∈ c.min, x.isFinite = true
  max : ∀ x ∈ c.max, x.isFinite = true

def columns (c : Control) : List (String × Option Node) :=
  [("panelId", some (.string c.panelId)), ("groupId", c.groupId.map .string),
    ("groupLabel", c.groupLabel.map .string), ("type", some (.string c.type)),
    ("path", some (.string c.path)), ("kind", some (.string c.kind.name)),
    ("label", c.label.map .string), ("showIf", c.showIf.map .string),
    ("options", c.options.map fun cs => .array (cs.map Choice.toNode)),
    ("min", c.min.map boundNode), ("max", c.max.map boundNode),
    ("allowImage", c.allowImage.map .bool), ("enumValues", c.enumValues.map Node.strings),
    ("itemIdPath", c.itemIdPath.map .string)]

theorem toNode_eq (c : Control) : c.toNode = .object (Record.columns c.columns) := by
  rw [toNode, Record.present_eq "groupId", Record.present_eq "groupLabel",
    Record.present_eq "label", Record.present_eq "showIf", Record.present_eq "options",
    Record.present_eq "min", Record.present_eq "max", Record.present_eq "allowImage",
    Record.present_eq "enumValues", Record.present_eq "itemIdPath"]
  simp only [columns, Record.columns, List.append_assoc, List.append_nil]
  rfl

theorem boundNode_of_isFinite {x : Float} (h : x.isFinite = true) :
    boundNode x = .number (.float x h) := by
  rw [boundNode, Number.ofFloat?, dif_pos h]
  rfl

theorem optional_bound {r : Record} {key : String} {o : Option Float}
    (hfinite : ∀ x ∈ o, x.isFinite = true)
    (h : Members.get? key r.members = (o.map boundNode).map ofNode) :
    r.optional key Written.float? = some o := by
  refine Record.optional_eq_some h (fun x hx => ?_) fun x hx => ?_
  · rw [boundNode_of_isFinite (hfinite x hx)]
    exact fun heq => nomatch heq
  · rw [boundNode_of_isFinite (hfinite x hx)]
    rfl

theorem ofWritten?_toNode {c : Control} (h : c.IsStorable) :
    ofWritten? (ofNode c.toNode) = some c := by
  obtain ⟨r, hr, hget⟩ := Record.ofWritten?_columns memberNames c.columns rfl (by decide)
  simp only [columns, List.forall_mem_cons] at hget
  obtain ⟨hpanelId, hgroupId, hgroupLabel, htype, hpath, hkind, hlabel, hshowIf, hoptions, hmin,
    hmax, hallowImage, henumValues, hitemIdPath, -⟩ := hget
  have hkind : r.required "kind" (fun v => v.word?.bind Kind.ofName?) = some c.kind :=
    Record.required_eq_some hkind (Kind.ofName?_name c.kind)
  have hoptions : r.optional "options" (Written.listOf? Choice.ofWritten?) = some c.options :=
    Record.optional_eq_some hoptions (fun _ _ => Node.noConfusion) fun cs _ =>
      Written.listOf?_ofNode fun c _ => Choice.ofWritten?_toNode c
  have hallowImage : r.optional "allowImage" Written.bool? = some c.allowImage :=
    Record.optional_eq_some hallowImage (fun _ _ => Node.noConfusion) fun _ _ => rfl
  have henumValues : r.optional "enumValues" (Written.listOf? Written.string?) =
      some c.enumValues :=
    Record.optional_eq_some henumValues (fun _ _ => Node.noConfusion) fun ss _ =>
      Written.listOf?_strings ss
  rw [toNode_eq]
  refine bind_eq_some hr ?_
  refine bind_eq_some (required_text hpanelId) ?_
  refine bind_eq_some (optional_text hgroupId) ?_
  refine bind_eq_some (optional_text hgroupLabel) ?_
  refine bind_eq_some (required_text htype) ?_
  refine bind_eq_some (required_text hpath) ?_
  refine bind_eq_some hkind ?_
  refine bind_eq_some (optional_text hlabel) ?_
  refine bind_eq_some (optional_text hshowIf) ?_
  refine bind_eq_some hoptions ?_
  refine bind_eq_some (optional_bound h.min hmin) ?_
  refine bind_eq_some (optional_bound h.max hmax) ?_
  refine bind_eq_some hallowImage ?_
  refine bind_eq_some henumValues ?_
  exact bind_eq_some (optional_text hitemIdPath) rfl

end Control

/-! ## Normalization rules -/

theorem ScalarType.ofName?_name (t : ScalarType) : ofName? t.name = some t := by
  cases t <;> decide

namespace Normalization

def idRuleColumns (r : IdRule) : List (String × Option Node) :=
  [("arrayPath", some (.string r.arrayPath)), ("idKey", some (.string r.idKey)),
    ("seedKey", r.seedKey.map .string), ("fallbackPrefix", r.fallbackPrefix.map .string)]

theorem idRuleNode_eq (rule : IdRule) :
    idRuleNode rule = .object (Record.columns (idRuleColumns rule)) := by
  rw [idRuleNode, Record.present_eq "seedKey", Record.present_eq "fallbackPrefix"]
  simp only [idRuleColumns, Record.columns, List.append_assoc, List.append_nil]
  rfl

theorem idRuleOfWritten?_idRuleNode (rule : IdRule) :
    idRuleOfWritten? (ofNode (idRuleNode rule)) = some rule := by
  obtain ⟨r, hr, hget⟩ := Record.ofWritten?_columns
    ["arrayPath", "idKey", "seedKey", "fallbackPrefix"] (idRuleColumns rule) rfl (by decide)
  simp only [idRuleColumns, List.forall_mem_cons] at hget
  obtain ⟨harrayPath, hidKey, hseedKey, hfallbackPrefix, -⟩ := hget
  rw [idRuleNode_eq]
  refine bind_eq_some hr ?_
  refine bind_eq_some (required_text harrayPath) ?_
  refine bind_eq_some (required_text hidKey) ?_
  refine bind_eq_some (optional_text hseedKey) ?_
  exact bind_eq_some (optional_text hfallbackPrefix) rfl

def coerceRuleColumns (r : CoerceRule) : List (String × Option Node) :=
  [("path", some (.string r.path)), ("type", some (.string r.type.name)),
    ("default", r.default.map id)]

theorem coerceRuleNode_eq (rule : CoerceRule) :
    coerceRuleNode rule = .object (Record.columns (coerceRuleColumns rule)) := by
  rw [coerceRuleNode, Record.present_eq "default"]
  simp only [coerceRuleColumns, Record.columns, List.append_nil]
  rfl

/-- A value of a type of a rule is read from what it is written as, however deep it may stand. -/
theorem toNode?_of_accepts {type : ScalarType} {v : Node} (h : type.accepts v = true)
    (depth : Nat) : Written.toNode? depth (ofNode v) = some v := by
  unfold ScalarType.accepts at h
  split at h
  · rfl
  · rfl
  · rfl
  · cases h

theorem ne_null_of_accepts {type : ScalarType} {v : Node} (h : type.accepts v = true) :
    v ≠ .null := by
  rintro rfl
  cases type <;> cases h

theorem coerceRuleOfWritten?_coerceRuleNode {rule : CoerceRule}
    (h : ∀ v ∈ rule.default, rule.type.accepts v = true) (depth : Nat) :
    coerceRuleOfWritten? depth (ofNode (coerceRuleNode rule)) = some rule := by
  obtain ⟨r, hr, hget⟩ := Record.ofWritten?_columns
    ["path", "type", "default"] (coerceRuleColumns rule) rfl (by decide)
  simp only [coerceRuleColumns, List.forall_mem_cons] at hget
  obtain ⟨hpath, htype, hdefault, -⟩ := hget
  have htype : r.required "type" (fun v => v.word?.bind ScalarType.ofName?) = some rule.type :=
    Record.required_eq_some htype (ScalarType.ofName?_name rule.type)
  have hdefault : r.optional "default" (Written.toNode? depth) = some rule.default :=
    Record.optional_eq_some hdefault (fun v hv => ne_null_of_accepts (h v hv)) fun v hv =>
      toNode?_of_accepts (h v hv) depth
  rw [coerceRuleNode_eq]
  refine bind_eq_some hr ?_
  refine bind_eq_some (required_text hpath) ?_
  refine bind_eq_some htype ?_
  exact bind_eq_some hdefault rfl

/-- Rules whose defaults are of the types that the rules ask for. -/
def IsStorable (n : Normalization) : Prop :=
  ∀ r ∈ n.coerceRules, ∀ v ∈ r.default, r.type.accepts v = true

def columns (n : Normalization) : List (String × Option Node) :=
  [("idRules", if n.idRules.isEmpty then none else some (.array (n.idRules.map idRuleNode))),
    ("coerceRules",
      if n.coerceRules.isEmpty then none else some (.array (n.coerceRules.map coerceRuleNode)))]

theorem toNode_eq (n : Normalization) : n.toNode = .object (Record.columns n.columns) := by
  unfold toNode columns
  cases n.idRules.isEmpty <;> cases n.coerceRules.isEmpty <;> rfl

theorem ofWritten?_toNode {n : Normalization} (h : n.IsStorable) (depth : Nat) :
    ofWritten? depth (ofNode n.toNode) = some n := by
  obtain ⟨r, hr, hget⟩ :=
    Record.ofWritten?_columns ["idRules", "coerceRules"] n.columns rfl (by decide)
  simp only [columns, List.forall_mem_cons] at hget
  obtain ⟨hidRules, hcoerceRules, -⟩ := hget
  have hidRules : r.listed "idRules" idRuleOfWritten? = some n.idRules :=
    Record.listed_eq_some hidRules fun rule _ => idRuleOfWritten?_idRuleNode rule
  have hcoerceRules : r.listed "coerceRules" (coerceRuleOfWritten? (depth - 3)) =
      some n.coerceRules :=
    Record.listed_eq_some hcoerceRules fun rule hrule =>
      coerceRuleOfWritten?_coerceRuleNode (h rule hrule) (depth - 3)
  rw [toNode_eq]
  refine bind_eq_some hr ?_
  refine bind_eq_some hidRules ?_
  exact bind_eq_some hcoerceRules rfl

end Normalization

/-! ## Assets -/

namespace WidgetAssets

def fileColumns (a : WidgetAssets) : List (String × Option Node) :=
  [("styles", some (Node.strings a.styles)), ("scripts", some (Node.strings a.scripts))]

def columns (a : WidgetAssets) : List (String × Option Node) :=
  [("htmlUrl", some (.string a.htmlUrl)), ("cssUrl", some (.string a.cssUrl)),
    ("jsUrl", some (.string a.jsUrl)), ("dieter", some (.object (Record.columns a.fileColumns)))]

theorem toNode_eq (a : WidgetAssets) : a.toNode = .object (Record.columns a.columns) := rfl

theorem componentFiles?_columns (a : WidgetAssets) :
    componentFiles? (ofNode (.object (Record.columns a.fileColumns))) =
      some (a.styles, a.scripts) := by
  obtain ⟨r, hr, hget⟩ :=
    Record.ofWritten?_columns ["styles", "scripts"] a.fileColumns rfl (by decide)
  simp only [fileColumns, List.forall_mem_cons] at hget
  obtain ⟨hstyles, hscripts, -⟩ := hget
  have hstyles : r.required "styles" (Written.listOf? Written.string?) = some a.styles :=
    Record.required_eq_some hstyles (Written.listOf?_strings a.styles)
  have hscripts : r.required "scripts" (Written.listOf? Written.string?) = some a.scripts :=
    Record.required_eq_some hscripts (Written.listOf?_strings a.scripts)
  refine bind_eq_some hr ?_
  refine bind_eq_some hstyles ?_
  exact bind_eq_some hscripts rfl

theorem ofWritten?_toNode (a : WidgetAssets) : ofWritten? (ofNode a.toNode) = some a := by
  obtain ⟨r, hr, hget⟩ :=
    Record.ofWritten?_columns ["htmlUrl", "cssUrl", "jsUrl", "dieter"] a.columns rfl (by decide)
  simp only [columns, List.forall_mem_cons] at hget
  obtain ⟨hhtmlUrl, hcssUrl, hjsUrl, hdieter, -⟩ := hget
  have hdieter : r.required "dieter" componentFiles? = some (a.styles, a.scripts) :=
    Record.required_eq_some hdieter (componentFiles?_columns a)
  rw [toNode_eq]
  refine bind_eq_some hr ?_
  refine bind_eq_some (required_text hhtmlUrl) ?_
  refine bind_eq_some (required_text hcssUrl) ?_
  refine bind_eq_some (required_text hjsUrl) ?_
  exact bind_eq_some hdieter rfl

end WidgetAssets

/-! ## Widgets -/

namespace Widget

/-- How many containers the data in a widget may hold inside each other. -/
def dataDepth : Nat := Written.maxDepth - 1

/-- A widget with the data that a definition can give it. -/
structure IsStorable (w : Widget) : Prop where
  defaults : Written.toNode? dataDepth (ofNode w.defaults) = some w.defaults
  presets : ∀ v ∈ w.presets, v ≠ .null ∧ Written.toNode? dataDepth (ofNode v) = some v
  controls : ∀ c ∈ w.controls, c.IsStorable
  normalization : ∀ n ∈ w.normalization, n.IsStorable

def columns (w : Widget) : List (String × Option Node) :=
  [("widgetname", some (.string w.name)), ("displayName", some (.string w.displayName)),
    ("defaults", some w.defaults), ("panels", some (.array (w.panels.map CompiledPanel.toNode))),
    ("controls", some (.array (w.controls.map Control.toNode))), ("presets", w.presets.map id),
    ("normalization", w.normalization.map Normalization.toNode),
    ("assets", some w.assets.toNode)]

theorem toNode_eq (w : Widget) : w.toNode = .object (Record.columns w.columns) := by
  rw [toNode, Record.present_eq "presets", Record.present_eq "normalization"]
  simp only [columns, Record.columns, List.append_assoc]
  rfl

theorem ofWritten?_toNode {w : Widget} (h : w.IsStorable) :
    ofWritten? (ofNode w.toNode) = some w := by
  obtain ⟨r, hr, hget⟩ := Record.ofWritten?_columns memberNames w.columns rfl (by decide)
  simp only [columns, List.forall_mem_cons] at hget
  obtain ⟨hname, hdisplayName, hdefaults, hpanels, hcontrols, hpresets, hnormalization, hassets,
    -⟩ := hget
  have hdefaults : r.required "defaults" (Written.toNode? dataDepth) = some w.defaults :=
    Record.required_eq_some hdefaults h.defaults
  have hpanels : r.required "panels" (Written.listOf? CompiledPanel.ofWritten?) = some w.panels :=
    Record.required_eq_some hpanels
      (Written.listOf?_ofNode fun p _ => CompiledPanel.ofWritten?_toNode p)
  have hcontrols : r.required "controls" (Written.listOf? Control.ofWritten?) = some w.controls :=
    Record.required_eq_some hcontrols
      (Written.listOf?_ofNode fun c hc => Control.ofWritten?_toNode (h.controls c hc))
  have hpresets : r.optional "presets" (Written.toNode? dataDepth) = some w.presets :=
    Record.optional_eq_some hpresets (fun v hv => (h.presets v hv).1) fun v hv => (h.presets v hv).2
  have hnormalization : r.optional "normalization" (Normalization.ofWritten? dataDepth) =
      some w.normalization := by
    refine Record.optional_eq_some hnormalization (fun n _ => ?_) fun n hn => ?_
    · exact fun heq => nomatch heq
    · exact Normalization.ofWritten?_toNode (h.normalization n hn) dataDepth
  have hassets : r.required "assets" WidgetAssets.ofWritten? = some w.assets :=
    Record.required_eq_some hassets (WidgetAssets.ofWritten?_toNode w.assets)
  rw [toNode_eq]
  refine bind_eq_some hr ?_
  refine bind_eq_some (required_text hname) ?_
  refine bind_eq_some (required_text hdisplayName) ?_
  refine bind_eq_some hdefaults ?_
  refine bind_eq_some hpanels ?_
  refine bind_eq_some hcontrols ?_
  refine bind_eq_some hpresets ?_
  refine bind_eq_some hnormalization ?_
  exact bind_eq_some hassets rfl

/-- The fractions in a widget are read from the texts of them. -/
def NumbersReadBack (w : Widget) : Prop :=
  ∀ x finite, Number.float x finite ∈ w.toNode.numbers → Token.ReadsBack (.float x finite)

theorem NumbersReadBack.readsBack {w : Widget} (h : w.NumbersReadBack) :
    ∀ n ∈ w.toNode.numbers, Token.ReadsBack n := by
  intro n hn
  cases n with
  | int i fits => exact Token.readsBack_int i fits
  | float x finite => exact h x finite hn

/-- A widget is read from the text that it is stored as. -/
theorem ofText?_text {w : Widget} (h : w.IsStorable) (hn : w.NumbersReadBack) :
    ofText? w.text = some w := by
  rw [ofText?, text, Written.ofText?_pretty hn.readsBack, Option.bind_some, ofWritten?_toNode h]

end Widget

/-! ## Compiled widgets -/

namespace Definition

end Definition

end WidgetSchema
