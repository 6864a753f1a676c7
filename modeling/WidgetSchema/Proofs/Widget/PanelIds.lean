-- The ids of compiled panels. Panels are found in the lines with their generated sections, and
-- rendering keeps their ids. So they are told apart by their ids just when the lines that stay hold
-- no id twice, and none of a panel that is put in. Every control is declared by one of the panels.
import WidgetSchema.Proofs.Generated.PanelsStay
import WidgetSchema.Proofs.Normalization.Defaults
namespace WidgetSchema

open Text Markup

/-! ## Panels that are put in -/

namespace Generated

variable {lines : List String} {defaults : Node}

/-- The ids of the panels that are put in among the lines that stay. -/
def addedIds (lines : List String) (defaults : Node) : List String :=
  typographyIds defaults ++
    if hasStagePod defaults && !(kept lines defaults).any opensLayout then ["layout"] else []

theorem nodup_addedIds (lines : List String) (defaults : Node) :
    (addedIds lines defaults).Nodup := by
  unfold addedIds typographyIds
  split <;> split <;> decide

/-- What is put in among the lines that stay is read on its own: panels start outside of other
panels, and the clusters that are split hold no tags of panels. -/
structure SectionsStandApart (lines : List String) (defaults : Node) : Prop where
  /-- No opening tag of a panel runs over the end of its line. -/
  whole : ∀ line ∈ kept lines defaults, IsWhole line.toList
  /-- No panel is open where the typography panel is put in. -/
  typography : typographySection defaults ≠ [] →
    (readPanels none (linesText (aheadOfLayout (kept lines defaults)))).opened = none
  /-- No panel is open where a layout panel is added. -/
  layout : hasStagePod defaults = true → (∀ line ∈ kept lines defaults, opensLayout line = false) →
    (readPanels none (linesText (kept lines defaults))).opened = none
  split : ∀ opening body closing, MixedCluster false (kept lines defaults) opening body closing →
    CanSplit opening body closing

theorem adds_newLayout {r : Reading} (h : hasStagePod defaults = true → r.opened = none) :
    Adds (if hasStagePod defaults then ["layout"] else []) r
      (r.go (linesText (newLayout defaults))) := by
  by_cases hlayout : hasStagePod defaults = true
  · have hopening : openingAt? (panelOpen "layout").toList = some ("layout".toList, []) := by
      decide
    have hclose : panelClose.toList = Markup.panelClose := rfl
    have hread := readPanels_panel hopening hclose (isPlain_layoutSection defaults)
    have hnone := h hlayout
    rw [newLayout, if_pos hlayout, if_pos hlayout]
    refine adds_go ?_ ?_
    · rw [hnone, hread, List.map_singleton, String.ofList_toList]
    · rw [hnone, hread]
  · rw [newLayout, if_neg hlayout, if_neg hlayout]
    exact adds_go (by rw [linesText, List.flatMap_nil, readPanels_nil, List.map_nil])
      (by rw [linesText, List.flatMap_nil, readPanels_nil])

theorem adds_sections (h : SectionsStandApart lines defaults) :
    Adds (addedIds lines defaults) (readPanels none (linesText (kept lines defaults)))
      (readPanels none (linesText (addSections lines defaults))) := by
  rcases read_addSections h.whole with
    ⟨hnew, hread⟩ | ⟨⟨line, hline, hopens⟩, panel, rest, hsame, hread⟩
  · have hadded : addedIds lines defaults =
        typographyIds defaults ++ if hasStagePod defaults then ["layout"] else [] := by
      have hany : (kept lines defaults).any opensLayout = false := by simpa using hnew
      rw [addedIds, hany, Bool.not_false, Bool.and_true]
    have htypography := h.typography
    rw [aheadOfLayout_eq_self hnew] at htypography
    have hfirst := adds_typography htypography
    rw [hread, hadded]
    refine hfirst.trans (adds_newLayout fun hlayout => ?_)
    have hnone := hfirst.opened
    rw [h.layout hlayout hnew] at hnone
    exact Option.map_eq_none_iff.1 hnone.symm
  · have hadded : addedIds lines defaults = typographyIds defaults := by
      have hany : (kept lines defaults).any opensLayout = true :=
        List.any_eq_true.2 ⟨line, hline, hopens⟩
      rw [addedIds, hany, Bool.not_true, Bool.and_false, if_neg Bool.false_ne_true, List.append_nil]
    rw [hread, hadded]
    exact adds_inside h.whole h.split h.typography hsame

/-- The panels of the lines with their sections are those of the lines that stay and those that are
put in. -/
theorem perm_ids (h : SectionsStandApart lines defaults) :
    ((panels (join "\n" (addSections lines defaults))).map (·.id)).Perm
      (addedIds lines defaults ++ (panels (join "\n" (kept lines defaults))).map (·.id)) := by
  rw [panels_join (isWhole_addSections h.whole), panels_join h.whole]
  exact (adds_sections h).panels

theorem nodup_ids_iff (h : SectionsStandApart lines defaults) :
    ((panels (join "\n" (addSections lines defaults))).map (·.id)).Nodup ↔
      ((panels (join "\n" (kept lines defaults))).map (·.id)).Nodup ∧
        ∀ id ∈ addedIds lines defaults,
          id ∉ (panels (join "\n" (kept lines defaults))).map (·.id) := by
  rw [(perm_ids h).nodup_iff, List.nodup_append]
  constructor
  · rintro ⟨-, hkept, hapart⟩
    exact ⟨hkept, fun id hid hmem => hapart id hid id hmem rfl⟩
  · rintro ⟨hkept, hapart⟩
    exact ⟨nodup_addedIds lines defaults, hkept, fun a ha b hb hab => hapart a ha (hab ▸ hb)⟩

end Generated

/-! ## Panels of controls -/

namespace Declaration

/-- A control belongs to the panel that declares it. -/
theorem panelId_controls {ps : List Panel} {defaults : Node} {cs : List Control}
    (h : controls ps defaults = .ok cs) : ∀ c ∈ cs, c.panelId ∈ ps.map (·.id) := by
  intro c hc
  obtain ⟨p, hp, part, hrun, d, hd, hcontrol⟩ := exists_collect_of_controls h c hc
  obtain ⟨inferred, -, rfl⟩ := Option.map_eq_some_iff.1 hcontrol
  have hid : d.panelId = p.id :=
    forall_mem_collect (fun _ _ h _ hd => (panelId_and_bounds_of_mem_ofTag h hd).1) (fun _ => rfl)
      hrun d hd
  exact hid ▸ List.mem_map_of_mem hp

end Declaration

namespace Definition

open Generated

theorem panels_eq_ok {d : Definition} {ps : List Panel} (h : d.panels = .ok ps) :
    Markup.panels (join "\n" (addSections d.html d.defaults)) = ps := by
  unfold panels at h
  split at h
  · cases h
  · rename_i hps
    exact hps.trans (Except.ok.inj h)

/-! ## Compiled panels -/

/-- Every control of a compiled widget belongs to a panel, and to one only where no panel has the id
of another. Where the generated sections stand apart, that is so exactly if it is so for the
authored panels that are left, and none of these has the id of a panel that is put in. -/
theorem compiled_panels_have_ids_of_their_own_iff {d : Definition} {options : CompileOptions}
    {lib : Library} {w : Widget} {cache : ComponentCache}
    (h : d.compile options lib = .ok (w, cache)) :
    (∀ c ∈ w.controls, c.panelId ∈ w.panels.map (·.id)) ∧
    ((w.panels.map (·.id)).Nodup →
      ∀ c ∈ w.controls, (w.panels.map (·.id)).count c.panelId = 1) ∧
    (SectionsStandApart d.html d.defaults →
      ((w.panels.map (·.id)).Nodup ↔
        ((Markup.panels (join "\n" (kept d.html d.defaults))).map (·.id)).Nodup ∧
          ∀ id ∈ addedIds d.html d.defaults,
            id ∉ (Markup.panels (join "\n" (kept d.html d.defaults))).map (·.id))) := by
  obtain ⟨ps, hpanels, hids, hcontrols⟩ := (compiles_of_compile h).panels
  have hthere : ∀ c ∈ w.controls, c.panelId ∈ w.panels.map (·.id) :=
    hids ▸ Declaration.panelId_controls hcontrols
  refine ⟨hthere, fun hnodup c hc => List.count_eq_one_of_mem hnodup (hthere c hc), ?_⟩
  intro hapart
  rw [hids, ← panels_eq_ok hpanels]
  exact nodup_ids_iff hapart

/-- A card that declares roles of which none is known. Its typography panel is taken out, and none
is put in. -/
def plainCard : Definition where
  name := "card"
  displayName := "Card"
  defaults := .object [("title", .string "Hi"), ("typography", .object [("roles", .object [])])]
  html := ["<bob-panel id='typography'></bob-panel>", "<bob-panel id='content'>",
    "<tooldrawer-field type='textfield' path='title' label='Title' />", "</bob-panel>",
    "<bob-panel id='layout'></bob-panel>"]

theorem kept_plainCard : kept plainCard.html plainCard.defaults = plainCard.html.drop 1 := by
  decide +kernel

theorem sectionsStandApart_plainCard :
    SectionsStandApart plainCard.html plainCard.defaults where
  whole := by
    have hopening : ∀ line ∈ plainCard.html.drop 1, ∀ start ∈ line.toList.tails,
        (dropFolded Char.toLower Markup.panelOpen start).isSome → (openingAt? start).isSome := by
      decide +kernel
    rw [kept_plainCard]
    exact fun line hline => isWhole_of_opening (hopening line hline)
  typography hsection := by
    have hnone : typographySection plainCard.defaults = [] := by decide +kernel
    exact absurd hnone hsection
  layout hlayout := by
    have hnone : hasStagePod plainCard.defaults = false := by decide +kernel
    rw [hnone] at hlayout
    cases hlayout
  split := by
    intro opening body closing h
    obtain ⟨start, after, hlines, -⟩ := h.found
    have hnone : ∀ line ∈ plainCard.html.drop 1, opensCluster line = false := by decide +kernel
    have hthere : opening ∈ plainCard.html.drop 1 := by
      rw [← kept_plainCard, hlines]
      simp
    cases (hnone opening hthere).symm.trans h.opens

/-- What a compiled card is tested for. -/
def hasTwoPanels (w : Widget) : Bool :=
  w.panels.map (·.id) == ["content", "layout"] && w.controls.map (·.panelId) == ["content"]

theorem the_panels_of_the_card_have_ids_of_their_own : ∃ w cache,
    plainCard.compile { checkDefaults := false } cardLibrary = .ok (w, cache) ∧
      SectionsStandApart plainCard.html plainCard.defaults ∧
      w.panels.map (·.id) = ["content", "layout"] ∧ w.controls.map (·.panelId) = ["content"] ∧
      (w.panels.map (·.id)).Nodup ∧
      ∀ c ∈ w.controls, (w.panels.map (·.id)).count c.panelId = 1 := by
  have hrun : (plainCard.compile { checkDefaults := false } cardLibrary).toOption.any
      (fun found => hasTwoPanels found.1) = true := by
    decide +kernel
  obtain ⟨w, cache, hcompile, htest⟩ := exists_of_any hasTwoPanels hrun
  rw [hasTwoPanels, Bool.and_eq_true, beq_iff_eq, beq_iff_eq] at htest
  obtain ⟨-, hone, hnodup⟩ := compiled_panels_have_ids_of_their_own_iff hcompile
  have hids : (w.panels.map (·.id)).Nodup := by
    refine (hnodup sectionsStandApart_plainCard).2 ?_
    rw [kept_plainCard]
    decide +kernel
  exact ⟨w, cache, hcompile, sectionsStandApart_plainCard, htest.1, htest.2, hids, hone hids⟩

/-- Two authored panels with one id. -/
def twinCard : Definition where
  name := "card"
  displayName := "Card"
  defaults := .object []
  html := ["<bob-panel id='content'></bob-panel>", "<bob-panel id='content'></bob-panel>"]

def hasTwins (w : Widget) : Bool := !decide (w.panels.map (·.id)).Nodup

theorem compiled_panels_do_not_always_have_ids_of_their_own :
    ¬ ∀ (d : Definition) (options : CompileOptions) (lib : Library) (w : Widget)
      (cache : ComponentCache), d.compile options lib = .ok (w, cache) →
        (w.panels.map (·.id)).Nodup ∧
          ∀ c ∈ w.controls, (w.panels.map (·.id)).count c.panelId = 1 := by
  intro hall
  have hrun : (twinCard.compile {} ⟨.memory, []⟩).toOption.any
      (fun found => hasTwins found.1) = true := by
    decide +kernel
  obtain ⟨w, cache, hcompile, hids⟩ := exists_of_any hasTwins hrun
  have hnodup := (hall _ _ _ w cache hcompile).1
  rw [hasTwins, decide_eq_true hnodup] at hids
  cases hids

end Definition

end WidgetSchema
