-- The section for stage and pod in the layout panel. Its fields stand behind the text that the
-- panel is open with, and each one is read there: a tag in front of it has ended, or wraps it.
import WidgetSchema.Proofs.Generated.PanelsStay
import WidgetSchema.Proofs.Markup.Within
namespace WidgetSchema.Generated

open Text Markup

/-! ## The tag of a line -/

theorem SectionLine.head? {line : String} (h : SectionLine line) :
    line.toList.head? = some ' ' := by
  cases h with
  | group hline =>
    revert line
    decide
  | field hhead hsimple hline =>
    rw [hline]
    rfl

theorem cutFolded_of_group {line : String}
    (h : line ∈ [clusterStartLine, clusterEndLine, "    <tooldrawer-eyebrow text='Pod layout' />",
      "    <tooldrawer-eyebrow text='Stage layout' />"]) :
    cutFolded Char.toLower fieldOpen line.toList = none := by
  revert line
  decide

theorem SectionLine.endsTags {line : String} (h : SectionLine line) : EndsTags line.toList := by
  cases h with
  | group hline => exact endsTags_of_unmarked (cutFolded_of_group hline)
  | @field head hhead hsimple hline =>
    rw [hline]
    -- The only bracket of the line is that of its tag.
    refine (endsTags_of_unmarked (by decide)).append (c := '<') ?_ (by decide)
    intro start hstart name hname
    rw [List.mem_tails, List.suffix_cons_iff] at hstart
    rcases hstart with rfl | hstart
    · have hopen : dropFolded Char.toLower fieldOpen
          (fieldOpen ++ (groupText head.group ++ (head.print ++ ['/', '>']))) = some _ :=
        dropFolded_append_self (by decide) _
      obtain rfl := Option.some.inj (hopen.symm.trans hname)
      exact isSome_cutTag_of_openingTag? (openingTag?_closed hhead [])
    · have hrest : '<' ∉ "tooldrawer-field".toList ++
          (groupText head.group ++ (head.print ++ ['/', '>'])) := by
        rw [List.mem_append, not_or]
        exact ⟨by decide, notMem_tag hhead hsimple⟩
      have hunmarked : cutFolded Char.toLower fieldOpen _ = none :=
        cutFolded_of_notMem_bracket (by decide) hrest
      rw [dropFolded_of_cutFolded (by decide) hunmarked hstart] at hname
      cases hname

/-- A line of the section holds its own tag at most: no tag is in its attributes. -/
theorem SectionLine.tag {line : String} (h : SectionLine line) {t : FieldTag}
    (ht : Holds line.toList t) : ∃ head : TagHead, head.IsSound ∧
      line.toList = "    ".toList ++ (Content.closed head).print ∧ t = closedTag head := by
  cases h with
  | group hline =>
    have hnone : fieldTags line.toList = [] := by
      rw [fieldTags_eq, cutFolded_of_group hline]
    cases ht with
    | here hmem => simp [hnone] at hmem
    | inBody hmem => simp [hnone] at hmem
    | inTemplate hmem => simp [hnone] at hmem
  | @field head hhead hsimple hline =>
    have htags : fieldTags line.toList = [closedTag head] := by
      have hread := fieldTags_closed hhead []
      rw [fieldTags_nil, List.append_nil] at hread
      rw [hline, fieldTags_text (by decide) (by rintro c ⟨⟩; rfl), hread]
    have htemplate : (closedTag head).attributes.get? "template" = none := by
      have hraw : head.pairs.raw? "template" = none := by
        rw [Attributes.raw?, Option.map_eq_none_iff, List.find?_eq_none]
        intro p hp
        obtain ⟨a, ha, rfl⟩ := List.mem_map.1 (List.mem_reverse.1 hp)
        simpa using (hsimple a ha).name
      rw [attributes_closedTag hhead, Attributes.get?, hraw, Option.filter_none]
    cases ht with
    | here hmem =>
      rw [htags] at hmem
      exact ⟨head, hhead, hline, List.mem_singleton.1 hmem⟩
    | inBody hmem hbody =>
      rw [htags] at hmem
      obtain rfl := List.mem_singleton.1 hmem
      cases hbody
    | inTemplate hmem hvalue =>
      rw [htags] at hmem
      obtain rfl := List.mem_singleton.1 hmem
      cases htemplate.symm.trans hvalue

/-! ## Lines behind a text -/

theorem endsTags_lines {lines : List String} (h : ∀ line ∈ lines, SectionLine line)
    {text : List Char} (htext : EndsTags text) : EndsTags (text ++ linesText lines) := by
  induction lines generalizing text with
  | nil => rwa [show linesText [] = [] from rfl, List.append_nil]
  | cons line lines ih =>
    have hfirst := h line List.mem_cons_self
    obtain ⟨tail, hline⟩ := List.head?_eq_some_iff.1 hfirst.head?
    have hends : EndsTags (text ++ line.toList) := by
      have hown := hfirst.endsTags
      rw [hline] at hown ⊢
      exact htext.append hown (by decide)
    have hend : EndsTags ['\n'] := endsTags_of_unmarked (by decide)
    have hnext := ih (fun l hl => h l (List.mem_cons_of_mem line hl))
      (hends.append hend (by decide))
    rw [linesText_cons]
    simpa only [List.append_assoc, List.cons_append, List.nil_append] using hnext

theorem holds_lines {lines : List String} (h : ∀ line ∈ lines, SectionLine line)
    {text : List Char} (htext : EndsTags text) {line : String} (hline : line ∈ lines)
    {t : FieldTag} (ht : Holds line.toList t) (more : List Char) :
    Holds (text ++ (linesText lines ++ more)) t := by
  obtain ⟨head, hhead, hchars, rfl⟩ := (h line hline).tag ht
  obtain ⟨first, last, rfl⟩ := List.append_of_mem hline
  have hindent : EndsTags "    ".toList := endsTags_of_unmarked (by decide)
  have hends := (endsTags_lines (fun l hl => h l (List.mem_append_left _ hl)) htext).append hindent
    (by decide)
  have hread := holds_closed hhead hends ('\n' :: (linesText last ++ more))
  rw [linesText_append, linesText_cons, hchars]
  simp only [List.append_assoc, List.cons_append] at hread ⊢
  exact hread

/-! ## The fields of the section -/

/-- Markup has a field tag with a type for this path. -/
def Declares (markup : List Char) (path : String) : Prop := ∃ t, Holds markup t ∧ t.Names path

/-- Markup declares every path that the section for stage and pod declares. -/
def DeclaresLayout (markup : List Char) : Prop :=
  ∀ line ∈ layoutFields, ∀ path, Declares line.toList path → Declares markup path

theorem declaresLayout_behind {defaults : Node} (h : hasStagePod defaults = true)
    {text : List Char} (htext : EndsTags text) (more : List Char) :
    DeclaresLayout (text ++ (linesText (layoutSection defaults) ++ more)) := by
  rintro line hline path ⟨t, ht, hpath⟩
  have hsection : layoutSection defaults = splitClusters true layoutFields := if_pos h
  have hlines : ∀ l ∈ layoutSection defaults, SectionLine l := fun l hl =>
    sectionLine_layoutFields l (mem_splitClusters.1 (hsection ▸ hl))
  have hthere : line ∈ layoutSection defaults := hsection ▸ mem_splitClusters.2 hline
  exact ⟨t, holds_lines hlines htext hthere ht more, hpath⟩

/-! ## Where the section goes -/

/-- The section has a place in the lines that stay: no panel is open at their end, where a layout
panel is added, or their own layout panel is open at the line that ends it. -/
inductive HasPlace (lines : List String) : Prop
  | new : (∀ line ∈ lines, opensLayout line = false) →
      (readPanels none (linesText lines)).opened = none → HasPlace lines
  | inside {before inside after : List String} {opening close : String} {text : List Char} :
      lines = before ++ (opening :: inside ++ close :: after) →
      (∀ line ∈ before, opensLayout line = false) → opensLayout opening = true →
      (∀ line ∈ inside, closesPanel line = false) → closesPanel close = true →
      (readPanels none (linesText before)).opened = none →
      (readPanels none (linesText (splitClusters false (opening :: inside)))).opened =
        some ⟨"layout".toList, text⟩ →
      EndsTags text → HasPlace lines

theorem opened_typography {r : Reading} (h : r.opened = none) (defaults : Node) :
    (r.go (linesText (typographySection defaults))).opened = none := by
  have hsame := (@adds_typography r defaults fun _ => h).opened
  rw [h] at hsame
  exact Option.map_eq_none_iff.1 hsame.symm

theorem cutFolded_of_closesPanel {line : String} (h : closesPanel line = true) :
    ∃ before word after,
      cutFolded Char.toLower Markup.panelClose line.toList = some (before, word, after) := by
  rcases hcut : cutFolded Char.toLower Markup.panelClose line.toList with
    _ | ⟨before, word, after⟩
  · have hnone : contains line panelClose = false :=
      contains_eq_false (by decide) (by decide) hcut
    cases hnone.symm.trans h
  · exact ⟨before, word, after, rfl⟩

theorem exists_splitClusters_cons (before : Bool) (line : String) (rest : List String) :
    ∃ more, splitClusters before (line :: rest) = line :: more := by
  rw [splitClusters_cons]
  split
  · split <;> exact ⟨_, rfl⟩
  · exact ⟨_, rfl⟩

/-- Where the section has a place, a layout panel declares all of its paths. -/
theorem a_layout_panel_declares_the_section_where_it_has_a_place {lines : List String}
    {defaults : Node} (hlayout : hasStagePod defaults = true)
    (hwhole : ∀ line ∈ kept lines defaults, IsWhole line.toList)
    (hplace : HasPlace (kept lines defaults)) :
    ∃ p ∈ panels (join "\n" (addSections lines defaults)),
      p.id = "layout" ∧ DeclaresLayout p.markup.toList := by
  have htypography := isWhole_typographySection defaults
  rw [panels_join (isWhole_addSections hwhole)]
  cases hplace with
  | new hnew hopened =>
    have hopening : openingAt? (panelOpen "layout").toList = some ("layout".toList, []) := by
      decide
    have hclose : panelClose.toList = Markup.panelClose := rfl
    have hpanel := readPanels_panel hopening hclose (isPlain_layoutSection defaults)
    have hnone := opened_typography hopened defaults
    rw [addSections_new hnew, if_pos hlayout, List.append_assoc, linesText_append,
      readPanels_lines hwhole, linesText_append, Reading.go_lines htypography]
    refine ⟨_, List.mem_append_right _ (by rw [hnone, hpanel]; exact List.mem_singleton_self _),
      rfl, ?_⟩
    have hend : EndsTags ['\n'] := endsTags_of_unmarked (by decide)
    have hfields := declaresLayout_behind hlayout hend []
    rw [String.toList_ofList]
    simpa only [List.append_nil, List.cons_append, List.nil_append] using hfields
  | @inside before inside after opening close text hlines hbefore hopening hinside hclose hapart
      hopened htext =>
    have hwholeBefore : ∀ line ∈ before, IsWhole line.toList := fun line hline =>
      hwhole line (hlines ▸ List.mem_append_left _ hline)
    have hwholeInside : ∀ line ∈ splitClusters false (opening :: inside), IsWhole line.toList :=
      fun line hline => hwhole line
        (hlines ▸ List.mem_append_right _ (List.mem_append_left _ (mem_splitClusters.1 hline)))
    have hnone := opened_typography hapart defaults
    obtain ⟨more, hmore⟩ := exists_splitClusters_cons true close after
    obtain ⟨rest, word, tail, hcut⟩ := cutFolded_of_closesPanel hclose
    rw [addSections_inside hlines hbefore hopening hinside (by rintro line ⟨⟩; exact hclose),
      List.append_assoc, linesText_append, readPanels_lines hwholeBefore, linesText_append,
      Reading.go_lines htypography, List.append_assoc, linesText_append,
      Reading.go_lines hwholeInside, linesText_append,
      Reading.go_lines fun line hline => (isPlain_layoutSection defaults line hline).isWhole,
      hmore, linesText_cons]
    generalize (readPanels none (linesText before)).go
      (linesText (typographySection defaults)) = r at hnone ⊢
    have hpanel : ((r.go (linesText (splitClusters false (opening :: inside)))).go
        (linesText (layoutSection defaults))).opened =
          some ⟨"layout".toList, text ++ linesText (layoutSection defaults)⟩ := by
      simp only [Reading.go, hnone, hopened,
        (isPlain_linesText (isPlain_layoutSection defaults)).read, Option.map_some]
    refine ⟨_, List.mem_append_right _ (by
      rw [hpanel, readPanels_some, cutFolded_append hcut]
      exact List.mem_cons_self), rfl, ?_⟩
    have hfields := declaresLayout_behind hlayout htext rest
    rw [String.toList_ofList, List.append_assoc]
    exact hfields

/-- In the styled widget the section goes behind the cluster that is split. -/
theorem hasPlace_styledLines : HasPlace (kept styledLines styledDefaults) := by
  rw [kept_styledLines]
  have hlines : styledLines[2] :: styledLines.drop 4 =
      [] ++ (styledLines[2] :: (styledLines.drop 4).take 4 ++ styledLines[8] :: []) := by
    decide +kernel
  have hopened : (readPanels none (linesText (splitClusters false
      (styledLines[2] :: (styledLines.drop 4).take 4)))).opened =
        some ⟨"layout".toList, '\n' :: linesText ["<tooldrawer-cluster>",
          "<tooldrawer-field type='toggle' path='pod.b' />", "</tooldrawer-cluster>",
          "<tooldrawer-cluster>", "<tooldrawer-field type='toggle' path='stage.a' />",
          "</tooldrawer-cluster>"]⟩ := by
    decide +kernel
  refine .inside hlines ?_ ?_ ?_ ?_ ?_ hopened ?_
  all_goals decide +kernel

theorem the_section_has_a_place_in_a_styled_widget :
    hasStagePod styledDefaults = true ∧
      (∀ line ∈ kept styledLines styledDefaults, IsWhole line.toList) ∧
      HasPlace (kept styledLines styledDefaults) ∧
      ∃ p ∈ panels (join "\n" (addSections styledLines styledDefaults)),
        p.id = "layout" ∧ DeclaresLayout p.markup.toList := by
  have hlayout : hasStagePod styledDefaults = true := by decide +kernel
  have hwhole : ∀ line ∈ kept styledLines styledDefaults, IsWhole line.toList :=
    fun line hline => panelsCanStay_styledLines.whole line (mem_authored hline)
  exact ⟨hlayout, hwhole, hasPlace_styledLines,
    a_layout_panel_declares_the_section_where_it_has_a_place hlayout hwhole hasPlace_styledLines⟩

/-- A layout panel that is closed on the line that opens it. -/
def closedLines : List String := ["<bob-panel id='layout'></bob-panel>"]

def stagedDefaults : Node := .object [("stage", .object [])]

/-- The section goes behind the panel. -/
theorem addSections_closedLines :
    addSections closedLines stagedDefaults = closedLines ++ layoutSection stagedDefaults := by
  have hkept : kept closedLines stagedDefaults =
      [] ++ ("<bob-panel id='layout'></bob-panel>" :: [] ++ []) := by decide +kernel
  have htypography : typographySection stagedDefaults = [] := by
    have hnone : roles? stagedDefaults = none := by decide +kernel
    rw [typographySection, hnone]
    rfl
  rw [addSections_inside hkept (by simp) (by decide) (by simp) (by simp), htypography,
    splitClusters_singleton, splitClusters_nil, List.append_nil, List.append_nil, List.nil_append,
    closedLines]

theorem not_declares_nil (path : String) : ¬ Declares [] path := by
  rintro ⟨t, ht, -⟩
  cases ht with
  | here hmem => simp [fieldTags_nil] at hmem
  | inBody hmem => simp [fieldTags_nil] at hmem
  | inTemplate hmem => simp [fieldTags_nil] at hmem

/-- A line of the section without further attributes declares its path. -/
theorem declares_layoutField {path type label : String}
    (hhead : (layoutHead path type label []).IsSound) (hpath : path ≠ "") (htype : type ≠ "") :
    Declares (layoutField path type label "").toList path := by
  have hindent : EndsTags "    ".toList := endsTags_of_unmarked (by decide)
  have hread := holds_closed hhead hindent []
  have hchars : (layoutField path type label "").toList =
      "    ".toList ++ (Content.closed (layoutHead path type label [])).print :=
    toList_layoutField rfl
  rw [List.append_nil, ← hchars] at hread
  refine ⟨_, hread, ?_, ?_⟩ <;> rw [attributes_closedTag hhead] <;>
    simp [TagHead.pairs, layoutHead, Attributes.get?, Attributes.raw?, hpath, htype]

theorem not_declaresLayout_nil : ¬ DeclaresLayout [] := by
  intro hall
  have hthere : layoutField ("pod" ++ ".padding." ++ "desktop" ++ ".linked") "toggle"
      ("Link " ++ "pod" ++ " padding (" ++ "desktop" ++ ")") "" ∈ layoutFields := by
    refine List.mem_append_left _ (List.mem_append_left _ (List.mem_cons_of_mem _
      (List.mem_cons_of_mem _ (List.mem_append_right _ (List.mem_append_left _
        (List.mem_append_left _ List.mem_cons_self))))))
  exact not_declares_nil _ (hall _ hthere _
    (declares_layoutField (by decide +kernel) (by decide +kernel) (by decide)))

theorem a_layout_panel_does_not_always_declare_the_section :
    ¬ ∀ (lines : List String) (defaults : Node), hasStagePod defaults = true →
      ∃ p ∈ panels (join "\n" (addSections lines defaults)),
        p.id = "layout" ∧ DeclaresLayout p.markup.toList := by
  intro hall
  obtain ⟨p, hp, -, hfields⟩ := hall closedLines stagedDefaults (by decide +kernel)
  have hkept : kept closedLines stagedDefaults = closedLines := by decide +kernel
  have hclosed : ∀ line ∈ closedLines, IsWhole line.toList := by
    have hopening : ∀ line ∈ closedLines, ∀ start ∈ line.toList.tails,
        (dropFolded Char.toLower Markup.panelOpen start).isSome → (openingAt? start).isSome := by
      decide +kernel
    exact fun line hline => isWhole_of_opening (hopening line hline)
  have hread : readPanels none (linesText closedLines) = ⟨[⟨"layout", ""⟩], none⟩ := by
    decide +kernel
  rw [panels_join (isWhole_addSections (by rwa [hkept])), addSections_closedLines,
    linesText_append, readPanels_lines hclosed, hread, Reading.go,
    (isPlain_linesText (isPlain_layoutSection stagedDefaults)).read] at hp
  obtain rfl := List.mem_singleton.1 hp
  exact not_declaresLayout_nil hfields

end WidgetSchema.Generated
