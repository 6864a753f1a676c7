-- The panels of a widget when sections are generated. As long as what is taken out, put in or
-- split leaves the reader of panels where it was, every panel that is authored is there
-- afterwards, or another one with its id.
import WidgetSchema.Proofs.Generated.Places
namespace WidgetSchema.Generated

open Text Markup

/-! ## Readings that close more panels -/

/-- The second text closes as many panels with each id as the first one, but for the given ones
that it closes besides. The same panel is open behind both. -/
structure Adds (new : List String) (r s : Reading) : Prop where
  panels : (s.panels.map (·.id)).Perm (new ++ r.panels.map (·.id))
  opened : r.opened.map (·.id) = s.opened.map (·.id)

namespace Adds

variable {new : List String} {r s t : Reading}

theorem trans {more : List String} (h : Adds new r s) (h' : Adds more s t) :
    Adds (new ++ more) r t where
  panels := by
    refine h'.panels.trans ((h.panels.append_left more).trans ?_)
    rw [← List.append_assoc]
    exact List.perm_append_comm.append_right _
  opened := h.opened.trans h'.opened

theorem mem (h : Adds new r s) {id : String} (hid : id ∈ new ++ r.panels.map (·.id)) :
    ∃ q ∈ s.panels, q.id = id :=
  List.mem_map.1 (h.panels.mem_iff.2 hid)

theorem exists_of_mem (h : Adds new r s) : ∀ p ∈ r.panels, ∃ q ∈ s.panels, q.id = p.id :=
  fun _ hp => h.mem (List.mem_append_right _ (List.mem_map_of_mem hp))

theorem go (h : Adds new r s) {as bs : List Char}
    (hread : Adds [] (readPanels r.opened as) (readPanels s.opened bs)) :
    Adds new (r.go as) (s.go bs) where
  panels := by
    simp only [Reading.go, List.map_append]
    rw [← List.append_assoc]
    exact h.panels.append hread.panels
  opened := hread.opened

end Adds

/-- The text of the panel that is open does not count. -/
theorem adds_of_opened {o o' : Option OpenPanel} (h : o.map (·.id) = o'.map (·.id))
    (cs : List Char) : Adds [] (readPanels o cs) (readPanels o' cs) where
  panels := .of_eq (readPanels_congr h cs).1.symm
  opened := (readPanels_congr h cs).2

theorem Adds.go_same {new : List String} {r s : Reading} (h : Adds new r s) (cs : List Char) :
    Adds new (r.go cs) (s.go cs) :=
  h.go (adds_of_opened h.opened cs)

/-- Text that leaves open what was open can be put in anywhere. -/
theorem adds_go {r : Reading} {cs : List Char} {new : List String}
    (hpanels : (readPanels r.opened cs).panels.map (·.id) = new)
    (hopened : (readPanels r.opened cs).opened.map (·.id) = r.opened.map (·.id)) :
    Adds new r (r.go cs) where
  panels := by
    simp only [Reading.go, List.map_append, hpanels]
    exact List.perm_append_comm
  opened := hopened.symm

theorem Adds.go_plain {new : List String} {r s : Reading} (h : Adds new r s) {cs : List Char}
    (hcs : IsPlain cs) : Adds new r (s.go cs) where
  panels := by
    rw [Reading.go, hcs.read, List.append_nil]
    exact h.panels
  opened := h.opened.trans (hcs.opened s.opened).symm

/-- Plain text of any kind, where the same panel is open. -/
theorem adds_of_plain {as bs : List Char} (ha : IsPlain as) (hb : IsPlain bs)
    {o o' : Option OpenPanel} (h : o.map (·.id) = o'.map (·.id)) :
    Adds [] (readPanels o as) (readPanels o' bs) where
  panels := by
    rw [ha.read, hb.read]
    exact List.Perm.nil
  opened := (ha.opened o).trans (h.trans (hb.opened o').symm)

/-! ## Lines that are taken out -/

/-- The lines up to the first one that closes a panel, and those behind it. -/
def untilClosed : List String → List String × List String
  | [] => ([], [])
  | line :: rest =>
    if closesPanel line then ([line], rest)
    else (line :: (untilClosed rest).1, (untilClosed rest).2)

theorem append_untilClosed (lines : List String) :
    (untilClosed lines).1 ++ (untilClosed lines).2 = lines := by
  induction lines with
  | nil => rfl
  | cons line rest ih =>
    rw [untilClosed]
    split
    · rfl
    · exact congrArg (line :: ·) ih

/-- The mark of an authored typography panel that is replaced. -/
def opensTypography (line : String) : Bool := contains line (panelOpen "typography")

variable {hasRoles hasLayout : Bool} {line : String} {rest lines : List String}
  {o : Option OpenPanel}

theorem authored_skipping (lines : List String) :
    authored hasRoles hasLayout true lines =
      authored hasRoles hasLayout false (untilClosed lines).2 := by
  induction lines with
  | nil => rfl
  | cons line rest ih =>
    rw [authored, untilClosed]
    cases hclose : closesPanel line
    · exact ih
    · rfl

theorem authored_typography (h : (hasRoles && opensTypography line) = true) :
    authored hasRoles hasLayout false (line :: rest) =
      authored hasRoles hasLayout false (untilClosed (line :: rest)).2 := by
  have hmark : (hasRoles && contains line (panelOpen "typography")) = true := h
  rw [authored, if_pos hmark, untilClosed]
  cases hclose : closesPanel line
  · exact authored_skipping rest
  · rfl

theorem authored_layout (h : (hasRoles && opensTypography line) = false)
    (hlayout : (hasLayout && isLayoutLine line) = true) :
    authored hasRoles hasLayout false (line :: rest) = authored hasRoles hasLayout false rest := by
  have hmark : ¬ (hasRoles && contains line (panelOpen "typography")) = true := by
    rw [Bool.not_eq_true]
    exact h
  rw [authored, if_neg hmark, if_pos hlayout]

theorem authored_kept (h : (hasRoles && opensTypography line) = false)
    (hlayout : (hasLayout && isLayoutLine line) = false) :
    authored hasRoles hasLayout false (line :: rest) =
      line :: authored hasRoles hasLayout false rest := by
  have hmark : ¬ (hasRoles && contains line (panelOpen "typography")) = true := by
    rw [Bool.not_eq_true]
    exact h
  rw [authored, if_neg hmark, if_neg (by simp [hlayout])]

/-- The lines that are taken out can be missed where the given panel is open: a line for stage
and pod holds no panel tag, and what is taken out as the typography panel starts outside of
panels, is no other panel, and ends outside of panels. -/
inductive GivesWay (hasRoles hasLayout : Bool) : Option OpenPanel → List String → Prop
  | nil {o : Option OpenPanel} : GivesWay hasRoles hasLayout o []
  | typography {line : String} {rest out after : List String} :
      (hasRoles && opensTypography line) = true → untilClosed (line :: rest) = (out, after) →
      (∀ p ∈ (readPanels none (linesText out)).panels, p.id = "typography") →
      (after ≠ [] → (readPanels none (linesText out)).opened = none) →
      GivesWay hasRoles hasLayout none after → GivesWay hasRoles hasLayout none (line :: rest)
  | layout {o : Option OpenPanel} {line : String} {rest : List String} :
      (hasRoles && opensTypography line) = false → (hasLayout && isLayoutLine line) = true →
      IsPlain line.toList → GivesWay hasRoles hasLayout o rest →
      GivesWay hasRoles hasLayout o (line :: rest)
  | kept {o : Option OpenPanel} {line : String} {rest : List String} :
      (hasRoles && opensTypography line) = false → (hasLayout && isLayoutLine line) = false →
      GivesWay hasRoles hasLayout (readPanels o (linesText [line])).opened rest →
      GivesWay hasRoles hasLayout o (line :: rest)

theorem mem_authored {skipping : Bool}
    (h : line ∈ authored hasRoles hasLayout skipping lines) : line ∈ lines := by
  induction lines generalizing skipping with
  | nil => cases skipping <;> exact h
  | cons first rest ih =>
    cases skipping <;> rw [authored] at h
    · split at h
      · exact List.mem_cons_of_mem first (ih h)
      split at h
      · exact List.mem_cons_of_mem first (ih h)
      rcases List.mem_cons.1 h with rfl | h
      · exact List.mem_cons_self
      · exact List.mem_cons_of_mem first (ih h)
    · exact List.mem_cons_of_mem first (ih h)

/-- Only the typography panel is missing from the lines that stay. -/
theorem panels_of_authored (h : GivesWay hasRoles hasLayout o lines)
    (hwhole : ∀ l ∈ lines, IsWhole l.toList) {o₁ o₂ : Option OpenPanel}
    (h₁ : o₁.map (·.id) = o.map (·.id)) (h₂ : o₂.map (·.id) = o.map (·.id)) :
    ∀ p ∈ (readPanels o₁ (linesText lines)).panels,
      (hasRoles = true ∧ (∃ l ∈ lines, opensTypography l = true) ∧ p.id = "typography") ∨
      ∃ q ∈ (readPanels o₂ (linesText (authored hasRoles hasLayout false lines))).panels,
        q.id = p.id := by
  induction h generalizing o₁ o₂ with
  | nil =>
    intro p hp
    rw [show linesText [] = [] from rfl, readPanels_nil] at hp
    cases hp
  | @typography line rest out after hmark hout hpanels hopened hafter ih =>
    obtain rfl : o₁ = none := Option.map_eq_none_iff.1 h₁
    obtain rfl : o₂ = none := Option.map_eq_none_iff.1 h₂
    have hlines : out ++ after = line :: rest := by
      have happend := append_untilClosed (line :: rest)
      rwa [hout] at happend
    have hwholeOut : ∀ l ∈ out, IsWhole l.toList := fun l hl =>
      hwhole l (hlines ▸ List.mem_append_left after hl)
    have hwholeAfter : ∀ l ∈ after, IsWhole l.toList := fun l hl =>
      hwhole l (hlines ▸ List.mem_append_right out hl)
    rw [authored_typography hmark, hout, ← hlines, linesText_append, readPanels_lines hwholeOut]
    rw [Bool.and_eq_true] at hmark
    have hthere : ∃ l ∈ out ++ after, opensTypography l = true :=
      ⟨line, hlines ▸ List.mem_cons_self, hmark.2⟩
    intro p hp
    rcases List.mem_append.1 hp with hp | hp
    · exact .inl ⟨hmark.1, hthere, hpanels p hp⟩
    · rcases hrest : after with _ | ⟨next, more⟩
      · rw [hrest, show linesText [] = [] from rfl, readPanels_nil] at hp
        cases hp
      · rw [hopened (by simp [hrest])] at hp
        rw [← hrest]
        rcases ih hwholeAfter rfl rfl p hp with ⟨hroles, -, hid⟩ | hfound
        · exact .inl ⟨hroles, hthere, hid⟩
        · exact .inr hfound
  | @layout o line rest hmark hlayout hplain hrest ih =>
    have hwholeLine : ∀ l ∈ [line], IsWhole l.toList := by simpa using hplain.isWhole
    have hread := readPanels_lines hwholeLine o₁ (linesText rest)
    have hline : IsPlain (linesText [line]) := isPlain_linesText (by simpa using hplain)
    rw [authored_layout hmark hlayout, linesText_cons_append, hread]
    intro p hp
    rw [Reading.go, hline.read] at hp
    have hsame : (o₁.map fun o => (⟨o.id, o.text ++ linesText [line]⟩ : OpenPanel)).map (·.id) =
        o.map (·.id) := by
      rw [← h₁, Option.map_map]
      rfl
    rcases ih (fun l hl => hwhole l (List.mem_cons_of_mem line hl)) hsame h₂ p hp with
      ⟨hroles, ⟨l, hl, hmark⟩, hid⟩ | hfound
    · exact .inl ⟨hroles, ⟨l, List.mem_cons_of_mem line hl, hmark⟩, hid⟩
    · exact .inr hfound
  | @kept o line rest hmark hlayout hrest ih =>
    have hline : ∀ l ∈ [line], IsWhole l.toList := by
      simpa using hwhole line List.mem_cons_self
    have hwholeRest : ∀ l ∈ rest, IsWhole l.toList := fun l hl =>
      hwhole l (List.mem_cons_of_mem line hl)
    rw [authored_kept hmark hlayout, linesText_cons_append line rest,
      linesText_cons_append line (authored _ _ _ _), readPanels_lines hline,
      readPanels_lines hline]
    intro p hp
    rcases List.mem_append.1 hp with hp | hp
    · obtain ⟨q, hq, hid⟩ := (adds_of_opened (h₁.trans h₂.symm) _).exists_of_mem p hp
      exact .inr ⟨q, List.mem_append_left _ hq, hid⟩
    · rcases ih hwholeRest (readPanels_congr h₁ _).2 (readPanels_congr h₂ _).2 p hp with
        ⟨hroles, ⟨l, hl, hmark⟩, hid⟩ | ⟨q, hq, hid⟩
      · exact .inl ⟨hroles, ⟨l, List.mem_cons_of_mem line hl, hmark⟩, hid⟩
      · exact .inr ⟨q, List.mem_append_right _ hq, hid⟩

/-! ## Clusters that are split -/

/-- A cluster of the layout panel that binds both stage and pod, in lines behind a line that is
in the panel or not. -/
structure MixedCluster (before : Bool) (lines : List String) (opening : String)
    (body : List String) (closing : String) : Prop where
  found : ∃ start after, lines = start ++ opening :: (body ++ closing :: after) ∧
    inLayout (start.foldl inLayout before) opening = true ∧
    clusterLines? (body ++ closing :: after) = some (body, closing, after)
  opens : opensCluster opening = true
  stays : closesCluster opening = false
  mixed : isMixed body = true

/-- The cluster can be split in front of a reader of panels: its lines hold no panel tag, but
for opening tags on its first line. -/
structure CanSplit (opening : String) (body : List String) (closing : String) : Prop where
  opening : cutFolded Char.toLower Markup.panelClose opening.toList = none
  body : ∀ line ∈ body, IsPlain line.toList
  closing : IsPlain closing.toList

/-- Text that closes nothing leaves the same panel open when it is read twice. -/
theorem opened_twice {cs : List Char} (h : cutFolded Char.toLower Markup.panelClose cs = none)
    (o : Option OpenPanel) :
    (readPanels (readPanels o cs).opened cs).opened.map (·.id) =
      (readPanels o cs).opened.map (·.id) := by
  have hstays (o : OpenPanel) : (readPanels (some o) cs).opened.map (·.id) = some o.id := by
    rw [readPanels_some, h]
    rfl
  rcases hopened : (readPanels o cs).opened with _ | o'
  · rcases o with _ | o
    · rw [hopened]
    · have hsome := hstays o
      rw [hopened] at hsome
      cases hsome
  · exact hstays o'

theorem panels_of_unclosed {cs : List Char}
    (h : cutFolded Char.toLower Markup.panelClose cs = none) (o : Option OpenPanel) :
    (readPanels o cs).panels = [] := by
  rcases o with _ | o
  · induction cs with
    | nil => rw [readPanels_nil]
    | cons c cs ih =>
      rw [readPanels_none_cons]
      rcases hopen : openingAt? (c :: cs) with _ | ⟨id, body⟩
      · exact ih (cutFolded_cons_eq_none_iff.1 h).2
      · have hbody := (suffix_of_openingAt? hopen).trans (List.suffix_cons c cs)
        dsimp only
        rw [readPanels_some, cutFolded_eq_none_of_suffix (by decide) h hbody]
  · rw [readPanels_some, h]

theorem CanSplit.adds {opening closing : String} {body : List String}
    (h : CanSplit opening body closing) (hwhole : IsWhole opening.toList)
    {o o' : Option OpenPanel} (ho : o.map (·.id) = o'.map (·.id)) :
    Adds [] (readPanels o (linesText (Piece.cluster opening body closing).lines))
      (readPanels o' (linesText (Piece.cluster opening body closing).split)) := by
  have hopening : ∀ line ∈ [opening], IsWhole line.toList := by simpa using hwhole
  have hlines {p : String → Bool} : ∀ line ∈ body.filter p ++ [closing], IsPlain line.toList := by
    intro line hline
    rcases List.mem_append.1 hline with hline | hline
    · exact h.body line (List.mem_of_mem_filter hline)
    · obtain rfl := List.mem_singleton.1 hline
      exact h.closing
  have hbody : ∀ line ∈ body ++ [closing], IsPlain line.toList := by
    intro line hline
    rcases List.mem_append.1 hline with hline | hline
    · exact h.body line hline
    · obtain rfl := List.mem_singleton.1 hline
      exact h.closing
  have hsplit : linesText (Piece.cluster opening body closing).split = linesText [opening] ++
      (linesText (body.filter (fun l => !isStage l) ++ [closing]) ++
        (linesText [opening] ++ linesText (body.filter isStage ++ [closing]))) := by
    rw [← linesText_append, ← linesText_append, ← linesText_append]
    simp [Piece.split]
  have hclose : cutFolded Char.toLower Markup.panelClose (linesText [opening]) = none :=
    cutFolded_linesText (by decide) (by decide) (by simpa using h.opening)
  rw [Piece.lines, linesText_cons_append, readPanels_lines hopening, hsplit,
    readPanels_lines hopening, Reading.go_lines fun l hl => (hlines l hl).isWhole,
    Reading.go_lines hopening]
  have hfirst := (adds_of_opened ho (linesText [opening])).go (adds_of_plain
    (isPlain_linesText hbody) (isPlain_linesText (hlines (p := fun l => !isStage l)))
    (adds_of_opened ho _).opened)
  refine (hfirst.trans (adds_go ?_ ?_)).go_plain (isPlain_linesText hlines)
  · rw [panels_of_unclosed hclose, List.map_nil]
  -- The opening line is read once more in the panel that it left open.
  have hpods := (isPlain_linesText (hlines (p := fun l => !isStage l))).opened
    (readPanels o' (linesText [opening])).opened
  exact (readPanels_congr hpods _).2.trans ((opened_twice hclose o').trans hpods.symm)

theorem adds_pieces {ps : List Piece}
    (hsplit : ∀ opening body closing, Piece.cluster opening body closing ∈ ps →
      CanSplit opening body closing)
    (hwhole : ∀ line ∈ ps.flatMap Piece.lines, IsWhole line.toList) {o o' : Option OpenPanel}
    (ho : o.map (·.id) = o'.map (·.id)) :
    Adds [] (readPanels o (linesText (ps.flatMap Piece.lines)))
      (readPanels o' (linesText (ps.flatMap Piece.split))) := by
  induction ps generalizing o o' with
  | nil => exact adds_of_opened ho _
  | cons p ps ih =>
    have hlines : ∀ line ∈ p.lines, IsWhole line.toList := fun line hline =>
      hwhole line (List.mem_append_left _ hline)
    have houts : ∀ line ∈ p.split, IsWhole line.toList := fun line hline =>
      hlines line (mem_split.1 hline)
    have hfirst : Adds [] (readPanels o (linesText p.lines)) (readPanels o' (linesText p.split)) := by
      cases p with
      | line l => exact adds_of_opened ho _
      | cluster opening body closing =>
        exact (hsplit _ _ _ List.mem_cons_self).adds (hlines opening List.mem_cons_self) ho
    rw [List.flatMap_cons, List.flatMap_cons, linesText_append, linesText_append,
      readPanels_lines hlines, readPanels_lines houts]
    exact hfirst.go (ih (fun _ _ _ h => hsplit _ _ _ (List.mem_cons_of_mem p h))
      (fun line hline => hwhole line (List.mem_append_right _ hline)) hfirst.opened)

theorem adds_splitClusters {before : Bool} {lines : List String}
    (hsplit : ∀ opening body closing, MixedCluster before lines opening body closing →
      CanSplit opening body closing)
    (hwhole : ∀ line ∈ lines, IsWhole line.toList) {o o' : Option OpenPanel}
    (ho : o.map (·.id) = o'.map (·.id)) :
    Adds [] (readPanels o (linesText lines))
      (readPanels o' (linesText (splitClusters before lines))) := by
  obtain ⟨ps, rfl, hcut⟩ := exists_cut before lines
  rw [splitClusters_of_cut hcut]
  refine adds_pieces (fun opening body closing h => ?_) hwhole ho
  obtain ⟨front, back, rfl⟩ := List.append_of_mem h
  obtain ⟨hcluster, hmixed⟩ := mixed_of_piece hcut
  refine hsplit opening body closing ⟨⟨_, _, ?_, hcluster.inside, hcluster.closed⟩,
    hcluster.opens, hcluster.stays, hmixed⟩
  simp [Piece.lines]

/-! ## Sections that are put in -/

/-- The lines in front of the layout panel. -/
def aheadOfLayout (lines : List String) : List String := lines.takeWhile (!opensLayout ·)

theorem aheadOfLayout_append {before after : List String}
    (hbefore : ∀ line ∈ before, opensLayout line = false)
    (hafter : ∀ line ∈ after.head?, opensLayout line = true) :
    aheadOfLayout (before ++ after) = before := by
  rw [aheadOfLayout, List.takeWhile_append_of_pos (by simpa using hbefore)]
  cases after with
  | nil => exact List.append_nil before
  | cons line rest =>
    rw [List.takeWhile_cons_of_neg (by simp [hafter line rfl]), List.append_nil]

theorem read_typographyPanel {roles : Node} (h : typographyPanel roles ≠ []) : ∃ markup,
    readPanels none (linesText (typographyPanel roles)) = ⟨[⟨"typography", markup⟩], none⟩ := by
  rcases typographyPanel_eq roles with hnone | hpanel
  · exact absurd hnone h
  · rw [hpanel, List.cons_append]
    have hopening : openingAt? (panelOpen "typography").toList =
        some ("typography".toList, []) := by decide
    exact ⟨_, readPanels_panel hopening rfl (isPlain_typographyLines roles)⟩

theorem isWhole_panelOpen : IsWhole (panelOpen "typography").toList ∧
    IsWhole (panelOpen "layout").toList :=
  ⟨isWhole_of_opening (by decide), isWhole_of_opening (by decide)⟩

theorem isWhole_panelClose : IsWhole panelClose.toList := isWhole_of_opening (by decide)

theorem isWhole_typographySection (defaults : Node) :
    ∀ line ∈ typographySection defaults, IsWhole line.toList := by
  unfold typographySection
  rcases roles? defaults with _ | roles
  · simp
  intro line hline
  rw [Option.map_some, Option.getD_some] at hline
  rcases typographyPanel_eq roles with hnone | hpanel
  · rw [hnone] at hline
    cases hline
  rw [hpanel] at hline
  rcases List.mem_append.1 hline with hline | hclose
  · rcases List.mem_cons.1 hline with rfl | hline
    · exact isWhole_panelOpen.1
    · exact (isPlain_typographyLines roles line hline).isWhole
  · obtain rfl := List.mem_singleton.1 hclose
    exact isWhole_panelClose

theorem isPlain_layoutSection (defaults : Node) :
    ∀ line ∈ layoutSection defaults, IsPlain line.toList := by
  unfold layoutSection
  split
  · exact fun line hline => isPlain_layoutFields line (mem_splitClusters.1 hline)
  · simp

theorem isWhole_addSections {lines : List String} {defaults : Node}
    (h : ∀ line ∈ kept lines defaults, IsWhole line.toList) :
    ∀ line ∈ addSections lines defaults, IsWhole line.toList := by
  intro line hline
  rcases mem_addSections hline with hkept | htypography | hlayout | rfl | rfl
  · exact h line hkept
  · exact isWhole_typographySection defaults line htypography
  · exact (isPlain_layoutSection defaults line hlayout).isWhole
  · exact isWhole_panelOpen.2
  · exact isWhole_panelClose

/-- The ids of the panels in the section for typography. -/
def typographyIds (defaults : Node) : List String :=
  if typographySection defaults = [] then [] else ["typography"]

/-- The typography panel is a panel of its own wherever no other one is open. -/
theorem adds_typography {r : Reading} {defaults : Node}
    (h : typographySection defaults ≠ [] → r.opened = none) :
    Adds (typographyIds defaults) r (r.go (linesText (typographySection defaults))) := by
  by_cases hsection : typographySection defaults = []
  · rw [typographyIds, if_pos hsection, hsection]
    refine adds_go ?_ ?_
    · rw [show linesText [] = [] from rfl, readPanels_nil, List.map_nil]
    · rw [show linesText [] = [] from rfl, readPanels_nil]
  · have hroles : ∃ roles, roles? defaults = some roles ∧
        typographySection defaults = typographyPanel roles := by
      rcases hroles : roles? defaults with _ | roles
      · exact absurd (by rw [typographySection, hroles]; rfl) hsection
      · exact ⟨roles, rfl, by rw [typographySection, hroles]; rfl⟩
    obtain ⟨roles, -, hpanel⟩ := hroles
    have hnone := h hsection
    rw [typographyIds, if_neg hsection]
    rw [hpanel] at hsection ⊢
    obtain ⟨markup, hread⟩ := read_typographyPanel hsection
    refine adds_go ?_ ?_
    · rw [hnone, hread, List.map_singleton]
    · rw [hnone, hread]

/-- The lines of the layout panel that is added where there is none. -/
def newLayout (defaults : Node) : List String :=
  if hasStagePod defaults then panelOpen "layout" :: (layoutSection defaults ++ [panelClose])
  else []

/-- The lines with their sections, read one part after the other: the sections stand behind all
lines that stay, or else in front of the layout panel and at its end. -/
theorem read_addSections {lines : List String} {defaults : Node}
    (hwhole : ∀ line ∈ kept lines defaults, IsWhole line.toList) :
    ((∀ line ∈ kept lines defaults, opensLayout line = false) ∧
      readPanels none (linesText (addSections lines defaults)) =
        ((readPanels none (linesText (kept lines defaults))).go
          (linesText (typographySection defaults))).go (linesText (newLayout defaults))) ∨
    (∃ line ∈ kept lines defaults, opensLayout line = true) ∧ ∃ panel rest,
      readPanels none (linesText (splitMixed (kept lines defaults))) =
        ((readPanels none (linesText (aheadOfLayout (kept lines defaults)))).go panel).go rest ∧
      readPanels none (linesText (addSections lines defaults)) =
        ((((readPanels none (linesText (aheadOfLayout (kept lines defaults)))).go
          (linesText (typographySection defaults))).go panel).go
            (linesText (layoutSection defaults))).go rest := by
  have htypography := isWhole_typographySection defaults
  obtain ⟨before, more, hmore, hbefore, hfirst⟩ := exists_first (p := opensLayout)
    (kept lines defaults)
  rcases more with _ | ⟨opening, rest⟩
  · rw [List.append_nil] at hmore
    have hnew : ∀ line ∈ kept lines defaults, opensLayout line = false := hmore ▸ hbefore
    refine .inl ⟨hnew, ?_⟩
    rw [addSections_new hnew, List.append_assoc, linesText_append, readPanels_lines hwhole,
      linesText_append, Reading.go_lines htypography]
    rfl
  · obtain ⟨inside, after, rfl, hinside, hafter⟩ := exists_first (p := closesPanel) rest
    have hopening := hfirst opening rfl
    have hahead := aheadOfLayout_append hbefore hfirst
    rw [← List.cons_append] at hmore hahead
    have hwholeBefore : ∀ line ∈ before, IsWhole line.toList := fun line hline =>
      hwhole line (hmore ▸ List.mem_append_left _ hline)
    have hwholeInside : ∀ line ∈ splitClusters false (opening :: inside), IsWhole line.toList :=
      fun line hline => hwhole line
        (hmore ▸ List.mem_append_right _ (List.mem_append_left _ (mem_splitClusters.1 hline)))
    have hthere : opening ∈ kept lines defaults := by
      rw [hmore]
      simp
    refine .inr ⟨⟨opening, hthere, hopening⟩, linesText (splitClusters false (opening :: inside)),
      linesText (splitClusters true after), ?_, ?_⟩
    · rw [hmore, hahead, splitMixed_inside hbefore hopening hinside hafter, linesText_append before,
        readPanels_lines hwholeBefore, linesText_append (splitClusters _ _),
        Reading.go_lines hwholeInside]
    · rw [addSections_inside hmore hbefore hopening hinside hafter, hmore, hahead,
        List.append_assoc, linesText_append, readPanels_lines hwholeBefore, linesText_append,
        Reading.go_lines htypography, List.append_assoc, linesText_append,
        Reading.go_lines hwholeInside, linesText_append,
        Reading.go_lines fun line hline => (isPlain_layoutSection defaults line hline).isWhole]

theorem aheadOfLayout_eq_self {lines : List String} (h : ∀ line ∈ lines, opensLayout line = false) :
    aheadOfLayout lines = lines :=
  List.takeWhile_eq_self_iff.2 (by simpa using h)

/-- Where there is a layout panel, the section at its end adds no panel, so at most the one for
typography is put in. -/
theorem adds_inside {lines : List String} {defaults : Node}
    (hwhole : ∀ line ∈ kept lines defaults, IsWhole line.toList)
    (hsplit : ∀ opening body closing,
      MixedCluster false (kept lines defaults) opening body closing →
        CanSplit opening body closing)
    {r : Reading} {panel rest : List Char}
    (hapart : typographySection defaults ≠ [] → r.opened = none)
    (hkept : readPanels none (linesText (splitMixed (kept lines defaults))) =
      (r.go panel).go rest) :
    Adds (typographyIds defaults) (readPanels none (linesText (kept lines defaults)))
      ((((r.go (linesText (typographySection defaults))).go panel).go
        (linesText (layoutSection defaults))).go rest) := by
  have hlayout := isPlain_linesText (isPlain_layoutSection defaults)
  have hfirst := @adds_splitClusters _ _ hsplit hwhole none none rfl
  rw [← splitMixed, hkept] at hfirst
  exact hfirst.trans ((((adds_typography hapart).go_same panel).go_plain hlayout).go_same rest)

theorem panels_of_sections {lines : List String} {defaults : Node}
    (hwhole : ∀ line ∈ kept lines defaults, IsWhole line.toList)
    (hsplit : ∀ opening body closing,
      MixedCluster false (kept lines defaults) opening body closing →
        CanSplit opening body closing)
    (hapart : typographySection defaults ≠ [] →
      (readPanels none (linesText (aheadOfLayout (kept lines defaults)))).opened = none) :
    (∀ p ∈ (readPanels none (linesText (kept lines defaults))).panels,
      ∃ q ∈ (readPanels none (linesText (addSections lines defaults))).panels, q.id = p.id) ∧
    (typographySection defaults ≠ [] →
      ∃ q ∈ (readPanels none (linesText (addSections lines defaults))).panels,
        q.id = "typography") := by
  have hids (hne : typographySection defaults ≠ []) : "typography" ∈ typographyIds defaults := by
    rw [typographyIds, if_neg hne]
    exact List.mem_singleton_self _
  rcases read_addSections hwhole with ⟨hnew, hread⟩ | ⟨-, panel, rest, hsame, hread⟩
  · rw [aheadOfLayout_eq_self hnew] at hapart
    have hadds := adds_typography hapart
    have hgo {r : Reading} {cs : List Char} {id : String} (h : ∃ q ∈ r.panels, q.id = id) :
        ∃ q ∈ (r.go cs).panels, q.id = id := by
      obtain ⟨q, hq, hid⟩ := h
      exact ⟨q, List.mem_append_left _ hq, hid⟩
    rw [hread]
    exact ⟨fun p hp => hgo (hadds.exists_of_mem p hp),
      fun hne => hgo (hadds.mem (List.mem_append_left _ (hids hne)))⟩
  · have hadds := adds_inside hwhole hsplit hapart hsame
    rw [hread]
    exact ⟨hadds.exists_of_mem, fun hne => hadds.mem (List.mem_append_left _ (hids hne))⟩

/-- What is taken out of the lines, put in and split leaves the reader of panels where it was. -/
structure PanelsCanStay (lines : List String) (defaults : Node) : Prop where
  /-- No opening tag of a panel runs over the end of its line. -/
  whole : ∀ line ∈ lines, IsWhole line.toList
  givesWay : GivesWay (roles? defaults).isSome (hasStagePod defaults) none lines
  /-- A typography panel is generated where one is taken out. -/
  replaced : (roles? defaults).isSome = true → (∃ line ∈ lines, opensTypography line = true) →
    typographySection defaults ≠ []
  /-- No panel is open where the typography panel is put in. -/
  apart : typographySection defaults ≠ [] →
    (readPanels none (linesText (aheadOfLayout (kept lines defaults)))).opened = none
  split : ∀ opening body closing, MixedCluster false (kept lines defaults) opening body closing →
    CanSplit opening body closing

/-- An authored panel is still there when the sections are generated, or another one with its id. -/
theorem an_authored_panel_stays_where_lines_can_give_way {lines : List String} {defaults : Node}
    (h : PanelsCanStay lines defaults) :
    ∀ p ∈ panels (join "\n" lines),
      ∃ q ∈ panels (join "\n" (addSections lines defaults)), q.id = p.id := by
  have hwhole : ∀ line ∈ kept lines defaults, IsWhole line.toList := fun line hline =>
    h.whole line (mem_authored hline)
  obtain ⟨hstay, htypography⟩ := panels_of_sections hwhole h.split h.apart
  rw [panels_join h.whole, panels_join (isWhole_addSections hwhole)]
  intro p hp
  rcases @panels_of_authored _ _ _ _ h.givesWay h.whole none none rfl rfl p hp with
    ⟨hroles, hmark, hid⟩ | ⟨q, hq, hid⟩
  · obtain ⟨q, hq, hsame⟩ := htypography (h.replaced hroles hmark)
    exact ⟨q, hq, hsame.trans hid.symm⟩
  · obtain ⟨q', hq', hsame⟩ := hstay q hq
    exact ⟨q', hq', hsame.trans hid⟩

/-- A widget with a typography role and a pod. -/
def styledDefaults : Node :=
  .object [("typography", .object [("roles", .object [("title", .object [])])]),
    ("pod", .object [])]

/-- Lines with a typography panel to replace, a line for the pod to take out, and a cluster to
split. -/
def styledLines : List String :=
  ["<bob-panel id='typography'>", "</bob-panel>", "<bob-panel id='layout'>",
    "<tooldrawer-field-podstagelayout type='toggle' path='pod.old' />", "<tooldrawer-cluster>",
    "<tooldrawer-field type='toggle' path='stage.a' />",
    "<tooldrawer-field type='toggle' path='pod.b' />", "</tooldrawer-cluster>", "</bob-panel>"]

theorem typographySection_styledDefaults : typographySection styledDefaults ≠ [] := by
  have hroles : roles? styledDefaults = some (.object [("title", .object [])]) := by decide +kernel
  rw [typographySection, hroles]
  exact (typographyPanel_ne_nil_iff (.object [("title", .object [])])).2 (by decide)

theorem kept_styledLines : kept styledLines styledDefaults =
    styledLines[2] :: styledLines.drop 4 := by decide +kernel

theorem panelsCanStay_styledLines : PanelsCanStay styledLines styledDefaults where
  whole := by
    have hopening : ∀ line ∈ styledLines, ∀ start ∈ line.toList.tails,
        (dropFolded Char.toLower Markup.panelOpen start).isSome → (openingAt? start).isSome := by
      decide +kernel
    exact fun line hline => isWhole_of_opening (hopening line hline)
  givesWay := by
    have hout : untilClosed styledLines = (styledLines.take 2, styledLines.drop 2) := by
      decide +kernel
    refine .typography ?_ hout ?_ ?_ ?_
    · decide +kernel
    · decide +kernel
    · exact fun _ => by decide +kernel
    refine .kept (by decide +kernel) (by decide +kernel) ?_
    refine .layout (by decide +kernel) (by decide +kernel) (by decide +kernel) ?_
    refine .kept (by decide +kernel) (by decide +kernel) ?_
    refine .kept (by decide +kernel) (by decide +kernel) ?_
    refine .kept (by decide +kernel) (by decide +kernel) ?_
    refine .kept (by decide +kernel) (by decide +kernel) ?_
    exact .kept (by decide +kernel) (by decide +kernel) .nil
  replaced := fun _ _ => typographySection_styledDefaults
  apart := fun _ => by
    rw [kept_styledLines]
    decide +kernel
  split := by
    intro opening body closing h
    obtain ⟨start, after, hlines, -, hcluster⟩ := h.found
    have hpanel := (lines_of_clusterLines? hcluster).2
    have hopens := h.opens
    rw [kept_styledLines] at hlines
    -- Behind the first line only the last one holds a panel tag.
    have hplain : ∀ line ∈ styledLines.drop 4,
        closesPanel line = false ∨ opensCluster line = true → IsPlain line.toList := by
      decide +kernel
    have hfirst : opensCluster styledLines[2] = false := by decide +kernel
    rcases start with _ | ⟨first, start⟩
    · rw [← (List.cons.inj hlines).1, hfirst] at hopens
      cases hopens
    · have htail : styledLines.drop 4 = start ++ opening :: (body ++ closing :: after) :=
        (List.cons.inj hlines).2
      rw [htail] at hplain
      refine ⟨(hplain opening (by simp) (.inr hopens)).closing, fun line hline => ?_, ?_⟩
      · exact hplain line (by simp [hline]) (.inl (hpanel line (List.mem_append_left _ hline)))
      · exact hplain closing (by simp) (.inl (hpanel closing (by simp)))

theorem the_panels_of_a_styled_widget_stay :
    PanelsCanStay styledLines styledDefaults ∧ ∀ p ∈ panels (join "\n" styledLines),
      ∃ q ∈ panels (join "\n" (addSections styledLines styledDefaults)), q.id = p.id :=
  ⟨panelsCanStay_styledLines,
    an_authored_panel_stays_where_lines_can_give_way panelsCanStay_styledLines⟩

/-- A typography panel that is closed in capital letters, and another panel behind it. -/
def loudLines : List String :=
  ["<bob-panel id='typography'>", "</BOB-PANEL>", "<bob-panel id='content'>", "</bob-panel>"]

def titledDefaults : Node :=
  .object [("typography", .object [("roles", .object [("title", .object [])])])]

/-- Nothing stays of the lines, as only small letters end what is taken out. -/
theorem addSections_loudLines :
    addSections loudLines titledDefaults = typographySection titledDefaults := by
  have hkept : kept loudLines titledDefaults = [] := by decide +kernel
  have hlayout : hasStagePod titledDefaults = false := by decide +kernel
  rw [addSections_new (by simp [hkept]), hkept, hlayout, List.nil_append]
  exact List.append_nil _

theorem an_authored_panel_does_not_always_stay :
    ¬ ∀ (lines : List String) (defaults : Node), ∀ p ∈ panels (join "\n" lines),
      ∃ q ∈ panels (join "\n" (addSections lines defaults)), q.id = p.id := by
  intro hall
  have hthere : ⟨"content", "\n"⟩ ∈ panels (join "\n" loudLines) := by decide +kernel
  obtain ⟨q, hq, hid⟩ := hall loudLines titledDefaults _ hthere
  have hroles : roles? titledDefaults = some (.object [("title", .object [])]) := by decide +kernel
  have hsection : typographySection titledDefaults =
      typographyPanel (.object [("title", .object [])]) := by
    rw [typographySection, hroles]
    rfl
  obtain ⟨markup, hread⟩ := read_typographyPanel
    ((typographyPanel_ne_nil_iff (.object [("title", .object [])])).2 (by decide))
  rw [addSections_loudLines, panels_join (isWhole_typographySection titledDefaults), hsection,
    hread] at hq
  obtain rfl := List.mem_singleton.1 hq
  exact absurd (show "typography" = "content" from hid) (by decide)

end WidgetSchema.Generated
