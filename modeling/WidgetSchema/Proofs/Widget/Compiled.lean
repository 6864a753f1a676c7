-- What a compiled widget takes over from its definition, and what was checked for it. The text of
-- a definition is read as data, so what a widget takes over was read from a text.
import WidgetSchema.Proofs.Declaration.Bounds
import WidgetSchema.Proofs.Normalization.Reading
import WidgetSchema.Widget.Compile
namespace WidgetSchema

namespace Definition

/-! ## Reading a definition -/

theorem failAs_eq_ok_iff {ε α : Type} {wrap : ε → CompileError} {x : Except ε α} {a : α} :
    failAs wrap x = .ok a ↔ x = .ok a := by
  cases x <;> simp [failAs]

/-- A panel keeps its id when it is rendered. -/
theorem ids_of_renderPanels {lib : Library} {usages : Usages} {ps : List Markup.Panel}
    {cache : ComponentCache} {rendered : List CompiledPanel} {used : Usages} {kept : ComponentCache}
    (h : (renderPanels lib usages ps).run cache = .ok ((rendered, used), kept)) :
    rendered.map (·.id) = ps.map (·.id) := by
  induction ps generalizing usages cache rendered used kept with
  | nil =>
    obtain ⟨⟨rfl, -⟩, -⟩ := Prod.mk.inj (Except.ok.inj h)
    rfl
  | cons p ps ih =>
    rw [renderPanels, StateT.run_bind] at h
    obtain ⟨⟨⟨html, usages'⟩, cache'⟩, -, h⟩ := bind_eq_ok_iff.1 h
    rw [StateT.run_bind] at h
    obtain ⟨⟨⟨rest, usages''⟩, cache''⟩, hrest, h⟩ := bind_eq_ok_iff.1 h
    obtain ⟨⟨rfl, -⟩, -⟩ := Prod.mk.inj (Except.ok.inj h)
    rw [List.map_cons, List.map_cons, ih hrest]

/-- What a compiled widget takes over from its definition, and what was checked for it. -/
structure Compiles (d : Definition) (options : CompileOptions) (w : Widget) : Prop where
  defaults : w.defaults = d.defaults
  presets : w.presets = d.presets
  rules : d.rules = .ok w.normalization
  panels : ∃ panels, d.panels = .ok panels ∧ w.panels.map (·.id) = panels.map (·.id) ∧
    Declaration.controls panels d.defaults = .ok w.controls
  checked : options.checkDefaults = true → d.checkDefaults w.controls = .ok ()

theorem compiles_of_compile {d : Definition} {options : CompileOptions} {lib : Library}
    {w : Widget} {cache : ComponentCache} (h : d.compile options lib = .ok (w, cache)) :
    d.Compiles options w := by
  unfold compile at h
  simp only [bind_eq_ok_iff, failAs_eq_ok_iff] at h
  obtain ⟨normalization, hrules, panels, hpanels, controls, hcontrols, ⟨⟨rendered, usages⟩, kept⟩,
    hrendered, h⟩ := h
  have hids := ids_of_renderPanels hrendered
  by_cases hcheck : options.checkDefaults = true
  · rw [if_pos hcheck] at h
    obtain ⟨⟨⟩, hchecked, h⟩ := bind_eq_ok_iff.1 h
    obtain ⟨rfl, -⟩ := Prod.mk.inj (Except.ok.inj h)
    exact ⟨rfl, rfl, hrules, ⟨panels, hpanels, hids, hcontrols⟩, fun _ => hchecked⟩
  · rw [if_neg hcheck] at h
    obtain ⟨rfl, -⟩ := Prod.mk.inj (Except.ok.inj h)
    exact ⟨rfl, rfl, hrules, ⟨panels, hpanels, hids, hcontrols⟩, fun hc => absurd hc hcheck⟩

end Definition

end WidgetSchema
