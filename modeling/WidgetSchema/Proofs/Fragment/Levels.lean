-- How deep templates that components hand down can stand inside of each other. With every level
-- there are more templates that come to an end, until one more level changes nothing, so a panel
-- that ends at all ends within as many levels as there are templates.
import Mathlib.Data.Finset.Card
import Mathlib.Data.Fintype.Card
import Mathlib.Data.Set.Finite.List
import Mathlib.Logic.Relation
import Mathlib.Order.WellFounded
import WidgetSchema.Proofs.Fragment.Runs
namespace WidgetSchema

open Markup Relation

/-! ## The templates that can be handed down -/

namespace Field

theorem mem_layered {base top : Members Node} {key : String} {v : Node}
    (h : Members.get? key (layered base top) = some v) :
    Members.get? key base = some v ∨ (key, v) ∈ top := by
  induction top generalizing base with
  | nil => exact .inl h
  | cons m top ih =>
    obtain ⟨k, x⟩ := m
    rcases ih h with hbase | htop
    · by_cases hk : key = k
      · subst hk
        rw [Members.get?_set] at hbase
        obtain rfl := Option.some.inj hbase
        exact .inr List.mem_cons_self
      · rw [Members.get?_set_ne hk] at hbase
        exact .inl hbase
    · exact .inr (List.mem_cons_of_mem _ htop)

/-- The template that a field gets from its component is one that the component hands down. -/
theorem textOf?_base_mem {f : Field} {text : String}
    (h : textOf? f.base "template" = some text) : text ∈ f.component.defaults.templates := by
  obtain ⟨v, hv, htext⟩ : ∃ v, Members.get? "template" f.base = some v ∧ v.string? = some text := by
    rw [textOf?, Option.filter_eq_some_iff] at h
    exact Option.bind_eq_some_iff.1 h.1
  rw [base, Members.get?_set_ne (by decide)] at hv
  obtain ⟨context, hcontext, hmem⟩ : ∃ context ∈ f.component.defaults.context.toList ++
      f.component.defaults.sizeContext.map (·.2),
      ("template", v) ∈ context.object?.getD [] := by
    rcases mem_layered hv with hspec | hsized
    · rw [specContext] at hspec
      rcases hc : f.component.defaults.context with _ | context
      · rw [hc] at hspec
        cases hspec
      · rw [hc] at hspec
        exact ⟨context, by simp, Members.mem_of_get? hspec⟩
    · rcases hs : Members.get? f.size f.component.defaults.sizeContext with _ | context
      · rw [hs] at hsized
        cases hsized
      · rw [hs] at hsized
        exact ⟨context, List.mem_append_right _
          (List.mem_map.2 ⟨_, Members.mem_of_get? hs, rfl⟩), hsized⟩
  refine List.mem_flatMap.2 ⟨context, hcontext, List.mem_filterMap.2 ⟨_, hmem, ?_⟩⟩
  rw [← htext]
  rfl

end Field

theorem Library.mem_of_component {lib : Library} {name : String} {c : Component}
    (h : lib.component name = .ok c) : ∃ texts, (name, texts) ∈ lib.components := by
  obtain ⟨files, hfiles⟩ : ∃ files, lib.files? name = some files := by
    rcases hf : lib.files? name with _ | files
    · rw [component, hf] at h
      cases h
    · exact ⟨files, rfl⟩
  obtain ⟨texts, htexts, -⟩ := Option.bind_eq_some_iff.1 hfiles
  refine ⟨texts, Members.mem_of_get? ?_⟩
  unfold texts? at htexts
  split at htexts
  · exact htexts
  · split at htexts
    · exact htexts
    · cases htexts

/-- What a component that is found hands down is among the templates of all components. -/
theorem ComponentCache.templates_of_found {cache : ComponentCache} {lib : Library}
    {name text : String} {c : Component} (hc : cache.found lib name = .ok c)
    (htext : text ∈ c.defaults.templates) : text ∈ cache.templates ++ lib.templates := by
  unfold ComponentCache.found at hc
  split at hc
  · rename_i kept hkept
    obtain rfl := Except.ok.inj hc
    exact List.mem_append_left _ (List.mem_flatMap.2 ⟨_, Members.mem_of_get? hkept, htext⟩)
  · obtain ⟨texts, hmem⟩ := Library.mem_of_component hc
    refine List.mem_append_right _ (List.mem_flatMap.2 ⟨_, hmem, ?_⟩)
    simp only [hc]
    exact htext

namespace Rendering

variable {lib : Library} {seen : String → Except ComponentError Component} {cache : ComponentCache}

theorem Leads.mem {cs : List Char} {text : String} (h : Leads (cache.found lib) cs text) :
    text ∈ cache.templates ++ lib.templates := by
  induction h with
  | handed _ _ hc _ htext =>
    exact ComponentCache.templates_of_found hc (Field.textOf?_base_mem htext)
  | own _ _ _ _ _ ih => exact ih

theorem PanelLeads.mem {markup : List Char} {text : String}
    (h : PanelLeads (cache.found lib) markup text) : text ∈ cache.templates ++ lib.templates := by
  obtain ⟨_, _, hleads⟩ := h
  exact hleads.mem

/-! ## More levels -/

theorem handedDown_mono {depth depth' : Nat} (h : depth ≤ depth') (text : String) :
    Follows lib seen True (handedDown lib depth text) (handedDown lib depth' text) := by
  induction depth generalizing depth' text with
  | zero => exact follows_endless _
  | succ depth ih =>
    cases depth' with
    | zero => cases h
    | succ depth' => exact follows_template _ fun text _ => ih (Nat.le_of_succ_le_succ h) text

/-- One more level changes nothing for the given templates. -/
def Settled (lib : Library) (seen : String → Except ComponentError Component)
    (texts : List String) (depth : Nat) : Prop :=
  ∀ text ∈ texts,
    Follows lib seen True (handedDown lib (depth + 1) text) (handedDown lib depth text)

section Levels

variable {texts : List String} (hall : ∀ cs text, Leads seen cs text → text ∈ texts)

include hall

theorem Settled.succ {depth : Nat} (h : Settled lib seen texts depth) :
    Settled lib seen texts (depth + 1) :=
  fun _ _ => follows_template _ fun text htext => h text (hall _ text htext)

/-- Where one more level changes nothing, no number of levels does. -/
theorem Settled.all {depth : Nat} (h : Settled lib seen texts depth) (more : Nat) :
    ∀ text ∈ texts,
      Follows lib seen True (handedDown lib (depth + more) text) (handedDown lib depth text) := by
  induction more with
  | zero => exact fun text _ => handedDown_mono le_rfl text
  | succ more ih =>
    intro text htext
    have hdown : Follows lib seen True (handedDown lib (depth + more + 1) text)
        (handedDown lib (depth + 1) text) :=
      follows_template _ fun inner hinner => ih inner (hall _ inner hinner)
    exact hdown.trans (h text htext)

end Levels

section Ending

variable (lib : Library) (seen : String → Except ComponentError Component) (texts : List String)

open Classical in
/-- The templates that come to an end within a number of levels. -/
noncomputable def ending (depth : Nat) : Finset String :=
  texts.toFinset.filter fun text => Ends lib seen (handedDown lib depth text)

variable {lib seen texts} {depth : Nat} {text : String}

theorem mem_ending :
    text ∈ ending lib seen texts depth ↔
      text ∈ texts ∧ Ends lib seen (handedDown lib depth text) := by
  unfold ending
  simp only [Finset.mem_filter, List.mem_toFinset]

theorem Ends.more {depth' : Nat} (h : Ends lib seen (handedDown lib depth text))
    (hle : depth ≤ depth') : Ends lib seen (handedDown lib depth' text) :=
  ((handedDown_mono hle text).whole h).ends

theorem ending_subset_succ (depth : Nat) :
    ending lib seen texts depth ⊆ ending lib seen texts (depth + 1) := by
  intro text htext
  obtain ⟨hmem, hends⟩ := mem_ending.1 htext
  exact mem_ending.2 ⟨hmem, hends.more (Nat.le_succ _)⟩

/-- Where no further template comes to an end, the next level changes nothing. -/
theorem settled_of_ending_eq
    (h : ending lib seen texts depth = ending lib seen texts (depth + 1)) :
    Settled lib seen texts depth := by
  intro text htext
  have hmono : Follows lib seen True (handedDown lib depth text)
      (handedDown lib (depth + 1) text) :=
    handedDown_mono (Nat.le_succ _) text
  by_cases hends : Ends lib seen (handedDown lib depth text)
  · exact (hmono.whole hends).symm.weaken
  · have hnot : ¬ Ends lib seen (handedDown lib (depth + 1) text) := by
      intro hnext
      have hmem := mem_ending.2 ⟨htext, hnext⟩
      rw [← h] at hmem
      exact hends (mem_ending.1 hmem).2
    exact (handedDown_mono le_rfl text).of_not_ends hnot

theorem settled_or_grown (hall : ∀ cs text, Leads seen cs text → text ∈ texts) (depth : Nat) :
    Settled lib seen texts depth ∨ depth + 1 ≤ (ending lib seen texts (depth + 1)).card := by
  have hstep : ∀ depth, Settled lib seen texts depth ∨
      (ending lib seen texts depth).card < (ending lib seen texts (depth + 1)).card := by
    intro depth
    by_cases h : ending lib seen texts depth = ending lib seen texts (depth + 1)
    · exact .inl (settled_of_ending_eq h)
    · exact .inr (Finset.card_lt_card ((ending_subset_succ depth).ssubset_of_ne h))
  induction depth with
  | zero => exact (hstep 0).imp_right (Nat.lt_of_le_of_lt (Nat.zero_le _))
  | succ depth ih =>
    rcases ih with hsettled | hgrown
    · exact .inl (hsettled.succ hall)
    · exact (hstep (depth + 1)).imp_right (Nat.lt_of_le_of_lt hgrown)

/-- As many levels as there are templates are enough. -/
theorem settled_length (hall : ∀ cs text, Leads seen cs text → text ∈ texts) :
    Settled lib seen texts texts.length := by
  rcases settled_or_grown hall texts.length with h | h
  · exact h
  · have hsub : ending lib seen texts (texts.length + 1) ⊆ texts.toFinset :=
      fun text htext => List.mem_toFinset.2 (mem_ending.1 htext).1
    have hcard := (Finset.card_le_card hsub).trans texts.toFinset_card_le
    omega

end Ending

/-! ## Panels -/

section Panels

variable (lib : Library) (cache : ComponentCache) (usages : Usages) (markup : List Char)

/-- The rendering of a panel comes to an end with a result: some number of levels is enough. -/
def PanelEnds (result : Except RenderError (List Char × Usages)) : Prop :=
  ∃ depth, (panelWithin lib depth usages markup).run' cache = result ∧
    result ≠ .error .endlessTemplate

variable {lib cache usages markup}

theorem sees_found : Sees lib (cache.found lib) cache := fun _ => rfl

theorem run'_eq_of_follows {α : Type} {m m' : Rendering α}
    (h : Follows lib (cache.found lib) cut m m') (hends : m.run' cache ≠ .error .endlessTemplate) :
    m'.run' cache = m.run' cache := by
  have hboth := h cache cache sees_found sees_found
  rw [show m.run' cache = (m cache).map (·.1) from rfl,
    show m'.run' cache = (m' cache).map (·.1) from rfl] at *
  generalize m cache = x at *
  generalize m' cache = y at *
  cases hboth with
  | cut => exact absurd rfl hends
  | error he => rfl
  | ok a hnext hnext' => rfl

theorem leads_mem (cs : List Char) (text : String) (h : Leads (cache.found lib) cs text) :
    text ∈ cache.templates ++ lib.templates :=
  h.mem

theorem settled_levels : Settled lib (cache.found lib) (cache.templates ++ lib.templates)
    (levels lib cache) :=
  (settled_length leads_mem).succ leads_mem

/-- No number of levels gets a panel further than the levels of its run. -/
theorem follows_levels (depth : Nat) :
    Follows lib (cache.found lib) True (panelWithin lib depth usages markup)
      (panelWithin lib (levels lib cache) usages markup) := by
  refine follows_panelWithin usages fun text htext => ?_
  rcases Nat.le_total depth (levels lib cache) with hle | hle
  · exact handedDown_mono hle text
  · obtain ⟨more, rfl⟩ := Nat.exists_eq_add_of_le hle
    exact settled_levels.all leads_mem more text htext.mem

theorem run'_panel : (panel lib usages markup).run' cache =
    (panelWithin lib (levels lib cache) usages markup).run' cache := by
  simp only [panel, StateT.run'_eq, StateT.run_bind, StateT.run_get, pure_bind]

theorem panelEnds_iff {result : Except RenderError (List Char × Usages)} :
    PanelEnds lib cache usages markup result ↔
      (panel lib usages markup).run' cache = result ∧ result ≠ .error .endlessTemplate := by
  rw [run'_panel]
  constructor
  · rintro ⟨depth, rfl, hends⟩
    exact ⟨run'_eq_of_follows (follows_levels depth) hends, hends⟩
  · rintro ⟨rfl, hends⟩
    exact ⟨_, rfl, hends⟩

theorem run'_ne_endless {α : Type} {m : Rendering α} (h : Ends lib (cache.found lib) m) :
    m.run' cache ≠ .error .endlessTemplate := by
  have hend := h cache cache sees_found sees_found
  rw [show m.run' cache = (m cache).map (·.1) from rfl]
  generalize m cache = x at *
  cases hend with
  | cut allowed => exact allowed.elim
  | error he => exact fun heq => he (Except.error.inj heq)
  | ok a hnext => nofun

/-- A template that leads only to templates that end, ends. -/
theorem ends_of_leads {text : String} (htext : text ∈ cache.templates ++ lib.templates)
    (h : ∀ next, TextLeads (cache.found lib) text next →
      Ends lib (cache.found lib) (handedDown lib (levels lib cache) next)) :
    Ends lib (cache.found lib) (handedDown lib (levels lib cache) text) := by
  have hdeeper : Ends lib (cache.found lib) (handedDown lib (levels lib cache + 1) text) :=
    follows_template _ h
  exact ((settled_levels text htext).whole hdeeper).ends

/-- The templates that can be reached from one of them. -/
abbrev Reached (lib : Library) (cache : ComponentCache) (start : String) : Type :=
  { text // text ∈ cache.templates ++ lib.templates ∧
    ReflTransGen (TextLeads (cache.found lib)) start text }

/-- Finitely many templates can be reached, so where none of them leads to itself, those that a
template leads to can be taken before it. -/
theorem wellFounded_of_no_loop {start : String} (hloop : ∀ text,
    ReflTransGen (TextLeads (cache.found lib)) start text →
      ¬ TransGen (TextLeads (cache.found lib)) text text) :
    WellFounded fun a b : Reached lib cache start =>
      TransGen (TextLeads (cache.found lib)) b.1 a.1 := by
  have hfinite : Finite (Reached lib cache start) :=
    Set.Finite.subset (List.finite_toSet (cache.templates ++ lib.templates)) fun _ h => h.1
  have htrans : IsTrans (Reached lib cache start)
      fun a b => TransGen (TextLeads (cache.found lib)) b.1 a.1 :=
    ⟨fun _ _ _ hab hbc => hbc.trans hab⟩
  have hirrefl : Std.Irrefl fun a b : Reached lib cache start =>
      TransGen (TextLeads (cache.found lib)) b.1 a.1 :=
    ⟨fun a => hloop a.1 a.2.2⟩
  exact Finite.wellFounded_of_trans_of_irrefl _

/-- A template from which no template is reached that leads to itself comes to an end. -/
theorem ends_of_no_loop {start : String} (hstart : start ∈ cache.templates ++ lib.templates)
    (hloop : ∀ text, ReflTransGen (TextLeads (cache.found lib)) start text →
      ¬ TransGen (TextLeads (cache.found lib)) text text) :
    Ends lib (cache.found lib) (handedDown lib (levels lib cache) start) := by
  suffices h : ∀ a : Reached lib cache start,
      Ends lib (cache.found lib) (handedDown lib (levels lib cache) a.1) from
    h ⟨start, hstart, .refl⟩
  intro a
  induction a using (wellFounded_of_no_loop hloop).induction with
  | _ a ih =>
    refine ends_of_leads a.2.1 fun next hnext => ?_
    exact ih ⟨next, hnext.mem, a.2.2.tail hnext⟩ (.single hnext)

/-- A panel comes to an end exactly if its run does, which stops at a number of levels: more than
these never help. It does unless its markup leads to a template that leads to itself. -/
theorem a_panel_ends_or_a_template_leads_to_itself (lib : Library) (cache : ComponentCache)
    (usages : Usages) (markup : List Char) :
    (∀ result, PanelEnds lib cache usages markup result ↔
      (panel lib usages markup).run' cache = result ∧ result ≠ .error .endlessTemplate) ∧
    ((∃ result, PanelEnds lib cache usages markup result) ∨
      ∃ first text, PanelLeads (cache.found lib) markup first ∧
        ReflTransGen (TextLeads (cache.found lib)) first text ∧
        TransGen (TextLeads (cache.found lib)) text text) := by
  refine ⟨fun result => panelEnds_iff, ?_⟩
  by_cases hloop : ∃ first text, PanelLeads (cache.found lib) markup first ∧
      ReflTransGen (TextLeads (cache.found lib)) first text ∧
        TransGen (TextLeads (cache.found lib)) text text
  · exact .inr hloop
  · have hends : Ends lib (cache.found lib) (panelWithin lib (levels lib cache) usages markup) :=
      follows_panelWithin usages fun first hfirst =>
        ends_of_no_loop hfirst.mem fun text htext hself => hloop ⟨first, text, hfirst, htext, hself⟩
    have hrun := run'_ne_endless hends
    rw [← run'_panel] at hrun
    exact .inl ⟨_, panelEnds_iff.2 ⟨rfl, hrun⟩⟩

end Panels

/-- A component with a template that holds a field of the same component. -/
def mirror : Library :=
  ⟨.memory, [("a", {
    html := some "<p></p>"
    spec := some ("\x7b\"defaults\":[\x7b\"context\":\x7b" ++
      "\"template\":\"<tooldrawer-field type='a' />\"\x7d\x7d]\x7d") })]⟩

theorem mirror_run : (panel mirror {} "<tooldrawer-field type='a' />".toList).run' [] =
    .error .endlessTemplate := by
  decide +kernel

/-- A field of such a component is rendered without end. -/
theorem a_mirror_never_ends :
    ¬ ∃ result, PanelEnds mirror [] {} "<tooldrawer-field type='a' />".toList result := by
  rintro ⟨result, hends⟩
  obtain ⟨hrun, hne⟩ := panelEnds_iff.1 hends
  exact hne (hrun.symm.trans mirror_run)

end Rendering

end WidgetSchema
