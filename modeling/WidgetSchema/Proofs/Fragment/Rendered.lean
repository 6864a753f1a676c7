-- What has been rendered once a widget is compiled. A run that comes out has made each of its
-- steps, and no step changes what is found under a name, so every field tag of a panel has been
-- rendered with the component that the library has for it.
import WidgetSchema.Proofs.Fragment.Levels
import WidgetSchema.Proofs.Markup.Held
import WidgetSchema.Proofs.Markup.Spans
import WidgetSchema.Proofs.Widget.Compiled
namespace WidgetSchema

open Markup

namespace Rendering

variable {lib : Library} {seen : String → Except ComponentError Component} {α β : Type}

/-! ## Steps of a run -/

/-- The renderer has given a value in a run that sees these components. -/
def Gives (lib : Library) (seen : String → Except ComponentError Component) (m : Rendering α)
    (a : α) : Prop :=
  ∃ before after, Sees lib seen before ∧ m before = .ok (a, after)

/-- No run of the renderer changes what is found under a name. -/
def Keeps (lib : Library) (seen : String → Except ComponentError Component) (m : Rendering α) :
    Prop :=
  ∀ before after a, Sees lib seen before → m before = .ok (a, after) → Sees lib seen after

theorem Follows.keeps {m : Rendering α} (h : Follows lib seen True m m) : Keeps lib seen m := by
  intro before after a hbefore hrun
  have hboth := h before before hbefore hbefore
  rw [hrun] at hboth
  cases hboth with
  | ok _ hafter _ => exact hafter

/-- A run of two steps is a run of each of them. -/
theorem Gives.of_bind {m : Rendering α} {f : α → Rendering β} {b : β}
    (h : Gives lib seen (m >>= f) b) (hm : Keeps lib seen m) :
    ∃ a, Gives lib seen m a ∧ Gives lib seen (f a) b := by
  obtain ⟨before, after, hbefore, hrun⟩ := h
  obtain ⟨⟨a, between⟩, ha, hb⟩ := bind_eq_ok_iff.1 hrun
  exact ⟨a, ⟨before, between, hbefore, ha⟩, between, after, hm _ _ _ hbefore ha, hb⟩

theorem Gives.of_component {name : String} {f : Component → Rendering β} {b : β}
    (h : Gives lib seen (component lib name >>= f) b) :
    ∃ c, seen name = .ok c ∧ Gives lib seen (f c) b := by
  obtain ⟨before, after, hbefore, hrun⟩ := h
  obtain ⟨⟨c, between⟩, hget, hb⟩ := bind_eq_ok_iff.1 hrun
  rcases hbefore.get name with ⟨e, -, herror⟩ | ⟨c', next, hc, hnext, hok⟩
  · cases hget.symm.trans herror
  · obtain ⟨rfl, rfl⟩ := Prod.mk.inj (Except.ok.inj (hget.symm.trans hok))
    exact ⟨c, hc, between, after, hnext, hb⟩

theorem Gives.first {m : Rendering α} {f : α → Rendering β} {b : β}
    (h : Gives lib seen (m >>= f) b) : ∃ a, Gives lib seen m a := by
  obtain ⟨before, after, hbefore, hrun⟩ := h
  obtain ⟨⟨a, between⟩, ha, -⟩ := bind_eq_ok_iff.1 hrun
  exact ⟨a, before, between, hbefore, ha⟩

/-- In a run over a list the step of every item is made. -/
theorem Gives.of_mapM {f : α → StateT Usages Rendering β}
    (hf : ∀ x, FollowsNoting lib seen True β (f x) (f x)) {xs : List α} {usages : Usages}
    {r : List β × Usages} (h : Gives lib seen ((xs.mapM f).run usages) r) :
    ∀ x ∈ xs, ∃ used y, Gives lib seen ((f x).run used) y := by
  induction xs generalizing usages r with
  | nil => exact fun x hx => (List.not_mem_nil hx).elim
  | cons x xs ih =>
    rw [List.mapM_cons, StateT.run_bind] at h
    obtain ⟨y, hx, hrest⟩ := h.of_bind (hf x usages).keeps
    rw [StateT.run_bind] at hrest
    obtain ⟨ys, hxs⟩ := hrest.first
    intro z hz
    rcases List.mem_cons.1 hz with rfl | hz
    · exact ⟨usages, y, hx⟩
    · exact ih hxs z hz

theorem Gives.of_replaceTags {cs : List Char}
    {new? : (t : FieldTag) → .tag t ∈ items cs → StateT Usages Rendering (Option (List Char))}
    (hnew : ∀ t ht, FollowsNoting lib seen True _ (new? t ht) (new? t ht)) {usages : Usages}
    {r : List Char × Usages} (h : Gives lib seen ((replaceTags cs new?).run usages) r) :
    ∀ t (ht : .tag t ∈ items cs), ∃ used y, Gives lib seen ((new? t ht).run used) y := by
  intro t ht
  unfold replaceTags at h
  rw [StateT.run_bind] at h
  obtain ⟨parts, hparts⟩ := h.first
  refine (hparts.of_mapM ?_ ⟨.tag t, ht⟩ (List.mem_attach _ _)).imp fun used hstep => ?_
  · rintro ⟨item, hitem⟩
    cases item with
    | text cs => exact followsNoting_pure _ _
    | tag t =>
      exact followsNoting_bind _ _ _ _ _ _ (hnew t hitem) fun _ => followsNoting_pure _ _
  · obtain ⟨y, hstep⟩ := hstep
    rw [StateT.run_bind] at hstep
    exact hstep.first

/-! ## Panels -/

theorem keeps_panel {usages : Usages} {markup : List Char} :
    Keeps lib seen (panel lib usages markup) := fun before =>
  (follows_panelWithin usages fun text _ => handedDown_mono le_rfl text).keeps before

/-- The context that a field tag was rendered in, with the component of its type. -/
def RendersIn (lib : Library) (t : FieldTag) (c : Component) (ctx : Node) : Prop :=
  ∃ depth, Gives lib lib.component (context lib (handedDown lib depth) c t.attrs) ctx

theorem rendersIn_of_field {depth : Nat} {t : FieldTag} {name : String}
    (htype : t.attributes.get? "type" = some name) {r : Option (String × List Char)}
    (h : Gives lib lib.component (field lib depth t) r) :
    ∃ c ctx, lib.component name = .ok c ∧ RendersIn lib t c ctx := by
  unfold field at h
  dsimp only at h
  rw [show (Attributes.ofChars t.attrs).get? "type" = some name from htype] at h
  obtain ⟨c, hc, hcontext⟩ := h.of_component
  obtain ⟨ctx, hctx⟩ := hcontext.first
  exact ⟨c, ctx, hc, depth, hctx⟩

/-- Every field tag of a panel that was rendered was rendered in a context of its own. -/
theorem rendersIn_of_panel {usages : Usages} {markup : List Char} {r : List Char × Usages}
    (h : Gives lib lib.component (panel lib usages markup) r) :
    ∃ expanded, expandClusters markup = .ok expanded ∧
      ∀ t ∈ fieldTags (expandSimple expanded),
        ∀ name, t.attributes.get? "type" = some name →
          ∃ c ctx, lib.component name = .ok c ∧ RendersIn lib t c ctx := by
  obtain ⟨before, after, hbefore, hrun⟩ := h
  have hwithin : Gives lib lib.component (panelWithin lib (levels lib before) usages markup) r :=
    ⟨before, after, hbefore, hrun⟩
  unfold panelWithin at hwithin
  cases hexpanded : expandClusters markup with
  | error name =>
    rw [hexpanded] at hwithin
    obtain ⟨_, _, _, hthrown⟩ := hwithin
    cases hthrown
  | ok expanded =>
    rw [hexpanded] at hwithin
    refine ⟨expanded, rfl, fun t ht name htype => ?_⟩
    obtain ⟨html, hfields⟩ := hwithin.first
    unfold fields at hfields
    obtain ⟨used, y, hstep⟩ := hfields.of_replaceTags (fun t ht => followsNoting_field
      (follows_field ht fun text _ => handedDown_mono le_rfl text)) t
      (mem_items_of_mem_fieldTags ht)
    rw [StateT.run_bind] at hstep
    obtain ⟨noted, hlift⟩ := hstep.first
    obtain ⟨rendered, hfield⟩ := Gives.first (f := fun rendered => pure (rendered, used)) hlift
    exact rendersIn_of_field htype hfield

end Rendering

namespace Definition

/-- Every panel of a widget that was rendered was rendered itself. -/
theorem gives_of_renderPanels {lib : Library} {usages : Usages} {ps : List Markup.Panel}
    {r : List CompiledPanel × Usages}
    (h : Rendering.Gives lib lib.component (renderPanels lib usages ps) r) :
    ∀ p ∈ ps, ∃ used r, Rendering.Gives lib lib.component
      (Rendering.panel lib used p.markup.toList) r := by
  induction ps generalizing usages r with
  | nil => exact fun p hp => (List.not_mem_nil hp).elim
  | cons p ps ih =>
    rw [renderPanels] at h
    obtain ⟨fragment, hp, hrest⟩ := h.of_bind Rendering.keeps_panel
    obtain ⟨rest, hps⟩ := hrest.first
    intro q hq
    rcases List.mem_cons.1 hq with rfl | hq
    · exact ⟨_, fragment, hp⟩
    · exact ih hps q hq

theorem rendersIn_of_compile {d : Definition} {options : CompileOptions} {lib : Library}
    {w : Widget} {cache : ComponentCache} (h : d.compile options lib = .ok (w, cache)) :
    ∃ ps, d.panels = .ok ps ∧ ∀ p ∈ ps, ∃ expanded,
      expandClusters p.markup.toList = .ok expanded ∧
      ∀ t ∈ fieldTags (expandSimple expanded),
        ∀ name, t.attributes.get? "type" = some name →
          ∃ c ctx, lib.component name = .ok c ∧ Rendering.RendersIn lib t c ctx := by
  unfold compile at h
  simp only [bind_eq_ok_iff, failAs_eq_ok_iff] at h
  obtain ⟨-, -, ps, hps, -, -, ⟨⟨rendered, usages⟩, kept⟩, hrendered, -⟩ := h
  refine ⟨ps, hps, fun p hp => ?_⟩
  have hgives : Rendering.Gives lib lib.component (renderPanels lib {} ps) (rendered, usages) :=
    ⟨[], kept, fun _ => rfl, hrendered⟩
  obtain ⟨used, r, hpanel⟩ := gives_of_renderPanels hgives p hp
  exact Rendering.rendersIn_of_panel hpanel

end Definition

end WidgetSchema
