-- Where the generated sections stand among the lines that stay. The clusters of the lines that
-- stay are split as if nothing had been generated: every section that is put in starts or ends a
-- cluster or a panel, and no cluster is split across such a line.
import WidgetSchema.Proofs.Generated.LayoutLines
import WidgetSchema.Proofs.Generated.Pieces
namespace WidgetSchema.Generated

open Text Markup

/-! ## Marks of plain lines -/

theorem infix_of_occurs {word cs : List Char} (h : occurs word cs = true) : word <:+: cs := by
  obtain ⟨⟨before, rest⟩, hcut⟩ := Option.isSome_iff_exists.1 h
  exact ⟨before, rest, append_of_cutAt hcut⟩

/-- No mark of a panel is on a plain line. -/
theorem contains_eq_false {line mark : String} {word : List Char} (hword : word ≠ [])
    (hmark : word <:+: mark.toList.map Char.toLower)
    (h : cutFolded Char.toLower word line.toList = none) : contains line mark = false := by
  rcases hcontains : contains line mark with _ | _
  · rfl
  · have hin := (infix_of_occurs hcontains).map Char.toLower
    exact absurd (hmark.trans hin) ((cutFolded_eq_none_iff hword).1 h)

theorem opensLayout_of_isPlain {line : String} (h : IsPlain line.toList) :
    opensLayout line = false :=
  contains_eq_false (by decide) (by decide) h.opening

theorem closesPanel_of_isPlain {line : String} (h : IsPlain line.toList) :
    closesPanel line = false :=
  contains_eq_false (by decide) (by decide) h.closing

/-! ## Putting lines in -/

theorem forall_head?_cons {p : String → Bool} {line : String} (h : p line = true)
    (rest : List String) : ∀ l ∈ (line :: rest).head?, p l = true := by
  rintro l ⟨⟩
  exact h

/-- Lines without the property are passed over. -/
theorem insertBefore?_pass {p : String → Bool} {new before : List String}
    (hbefore : ∀ line ∈ before, p line = false) (after : List String) :
    insertBefore? p new (before ++ after) = (insertBefore? p new after).map (before ++ ·) := by
  induction before with
  | nil => simp
  | cons line before ih =>
    have hline : ¬ p line = true := by simp [hbefore line List.mem_cons_self]
    rw [List.cons_append, insertBefore?, if_neg hline,
      ih fun l hl => hbefore l (List.mem_cons_of_mem line hl), Option.map_map]
    rfl

theorem insertBefore?_append {p : String → Bool} {new before after : List String}
    (hbefore : ∀ line ∈ before, p line = false) (hafter : ∀ line ∈ after.head?, p line = true) :
    (insertBefore? p new (before ++ after)).getD (before ++ after ++ new) =
      before ++ new ++ after := by
  rw [insertBefore?_pass hbefore]
  cases after with
  | nil => simp [insertBefore?]
  | cons line rest => simp [insertBefore?, hafter line rfl]

/-- The lines up to the layout panel, and those from its opening on. -/
theorem addTypography_append {panel before after : List String}
    (hbefore : ∀ line ∈ before, opensLayout line = false)
    (hafter : ∀ line ∈ after.head?, opensLayout line = true) :
    addTypography panel (before ++ after) = before ++ panel ++ after :=
  insertBefore?_append hbefore hafter

theorem addLayout_new {lines : List String} (h : ∀ line ∈ lines, opensLayout line = false) :
    addLayout lines = lines ++ (panelOpen "layout" :: layoutFields ++ [panelClose]) := by
  induction lines with
  | nil => rfl
  | cons line lines ih =>
    have hline : ¬ opensLayout line = true := by simp [h line List.mem_cons_self]
    rw [addLayout, if_neg hline, ih fun l hl => h l (List.mem_cons_of_mem line hl)]
    rfl

theorem addLayout_inside {before inside after : List String} {opening : String}
    (hbefore : ∀ line ∈ before, opensLayout line = false) (hopening : opensLayout opening = true)
    (hinside : ∀ line ∈ inside, closesPanel line = false)
    (hafter : ∀ line ∈ after.head?, closesPanel line = true) :
    addLayout (before ++ opening :: (inside ++ after)) =
      before ++ opening :: (inside ++ layoutFields ++ after) := by
  induction before with
  | nil =>
    rw [List.nil_append, addLayout, if_pos hopening, insertBefore?_append hinside hafter]
    rfl
  | cons line before ih =>
    have hline : ¬ opensLayout line = true := by simp [hbefore line List.mem_cons_self]
    rw [List.cons_append, addLayout, if_neg hline,
      ih fun l hl => hbefore l (List.mem_cons_of_mem line hl)]
    rfl

/-! ## Splitting clusters -/

theorem inLayout_of_outside {line : String} (h : opensLayout line = false) :
    inLayout false line = false := by
  unfold inLayout
  rw [show contains line (panelOpen "layout") = false from h]
  cases closesPanel line <;> rfl

theorem clusterLines?_append {barrier : String} (hbarrier : isBarrier barrier = true)
    (lines more : List String) :
    clusterLines? (lines ++ barrier :: more) =
      (clusterLines? lines).map fun (body, close, after) =>
        (body, close, after ++ barrier :: more) := by
  induction lines with
  | nil =>
    have hends : (opensCluster barrier || closesPanel barrier) = true := hbarrier
    have hnone : clusterLines? (barrier :: more) = none := by rw [clusterLines?, if_pos hends]
    rw [List.nil_append, hnone]
    rfl
  | cons line lines ih =>
    rw [List.cons_append, clusterLines?, clusterLines?, ih]
    split
    · rfl
    · split
      · rfl
      · rcases clusterLines? lines with _ | ⟨body, close, after⟩ <;> rfl

theorem splitClusters_append {barrier : String} (hbarrier : isBarrier barrier = true)
    (before : Bool) (lines more : List String) :
    splitClusters before (lines ++ barrier :: more) =
      splitClusters before lines ++
        splitClusters (lines.foldl inLayout before) (barrier :: more) := by
  obtain ⟨ps, rfl, hcut⟩ := exists_cut before lines
  rw [splitClusters_of_cut hcut]
  induction hcut with
  | nil => rfl
  | @line before l ps hplain _ ih =>
    have hline := splitClusters_line_of hplain (ps.flatMap Piece.lines ++ barrier :: more)
      fun body closing after hclosed => by
        rw [clusterLines?_append hbarrier] at hclosed
        obtain ⟨⟨b, c, a⟩, hfirst, he⟩ := Option.map_eq_some_iff.1 hclosed
        cases he
        exact ⟨a, hfirst⟩
    rw [ih] at hline
    exact hline
  | @cluster before opening closing body ps hcluster hmixed _ ih =>
    have hstep := splitClusters_cluster
      (hcluster.followed (ps.flatMap Piece.lines ++ barrier :: more)) hmixed
    have hlines : (Piece.cluster opening body closing).lines ++ (ps.flatMap Piece.lines ++
        barrier :: more) = opening :: (body ++ closing :: (ps.flatMap Piece.lines ++
          barrier :: more)) := by simp [Piece.lines]
    have hinside : (Piece.cluster opening body closing).lines.foldl inLayout before = true :=
      hcluster.foldl
    rw [List.flatMap_cons, List.append_assoc, hlines, hstep, ih, List.flatMap_cons,
      List.foldl_append, hinside, List.append_assoc]

theorem splitClusters_outside {lines : List String}
    (h : ∀ line ∈ lines, opensLayout line = false) (more : List String) :
    splitClusters false (lines ++ more) = lines ++ splitClusters false more := by
  induction lines with
  | nil => rfl
  | cons line lines ih =>
    have hline := inLayout_of_outside (h line List.mem_cons_self)
    have hrest := ih fun l hl => h l (List.mem_cons_of_mem line hl)
    rw [List.cons_append, splitClusters_cons, hline]
    rcases clusterLines? (lines ++ more) with _ | ⟨body, close, after⟩
    · simp only [hrest]
      rfl
    · simp only [Bool.false_and, Bool.false_eq_true, if_false, hrest]
      rfl

theorem mem_split {p : Piece} {line : String} : line ∈ p.split ↔ line ∈ p.lines := by
  cases p with
  | line l => rfl
  | cluster opening body closing =>
    simp only [Piece.split, Piece.lines, List.mem_cons, List.mem_append, List.mem_filter]
    rcases hstage : isStage line <;> simp <;> grind

theorem mem_splitClusters {before : Bool} {lines : List String} {line : String} :
    line ∈ splitClusters before lines ↔ line ∈ lines := by
  obtain ⟨ps, rfl, hcut⟩ := exists_cut before lines
  simp only [splitClusters_of_cut hcut, List.mem_flatMap, mem_split]

/-! ## The sections -/

/-- The authored lines that stay. -/
def kept (lines : List String) (defaults : Node) : List String :=
  authored (roles? defaults).isSome (hasStagePod defaults) false lines

/-- The typography panel of a widget, if it has one. -/
def typographySection (defaults : Node) : List String :=
  ((roles? defaults).map typographyPanel).getD []

/-- The fields that go in the layout panel of a widget, if there are any. -/
def layoutSection (defaults : Node) : List String :=
  if hasStagePod defaults then splitClusters true layoutFields else []

theorem opensLayout_typographyPanel (roles : Node) :
    ∀ line ∈ typographyPanel roles, opensLayout line = false := by
  rcases typographyPanel_eq roles with hnone | hpanel
  · simp [hnone]
  · rw [hpanel]
    intro line hline
    rcases List.mem_append.1 hline with hline | hclose
    · rcases List.mem_cons.1 hline with rfl | hline
      · decide
      · exact opensLayout_of_isPlain (isPlain_typographyLines roles line hline)
    · obtain rfl := List.mem_singleton.1 hclose
      decide

theorem opensLayout_typographySection (defaults : Node) :
    ∀ line ∈ typographySection defaults, opensLayout line = false := by
  unfold typographySection
  rcases roles? defaults with _ | roles
  · simp
  · exact opensLayout_typographyPanel roles

theorem splitClusters_singleton (before : Bool) (line : String) :
    splitClusters before [line] = [line] := by
  simp only [splitClusters_cons, clusterLines?, splitClusters_nil]

/-- From the opening of the layout panel to the line that closes it, clusters are split apart
from those behind. -/
theorem splitClusters_panel {opening : String} {inside after : List String}
    (hopening : opensLayout opening = true) (hinside : ∀ line ∈ inside, closesPanel line = false)
    (hafter : ∀ line ∈ after.head?, isBarrier line = true) :
    splitClusters false (opening :: inside ++ after) =
      splitClusters false (opening :: inside) ++ splitClusters true after := by
  have hopened : (opening :: inside).foldl inLayout false = true := by
    have hmark : contains opening (panelOpen "layout") = true := hopening
    rw [List.foldl_cons, inLayout, if_pos hmark, foldl_inLayout hinside]
  cases after with
  | nil => rw [splitClusters_nil, List.append_nil, List.append_nil]
  | cons line rest => rw [splitClusters_append (hafter line rfl), hopened]

/-- Lines that are put in at the end of the panel are split on their own. -/
theorem splitClusters_fields {fields after : List String}
    (hfields : ∀ line ∈ fields, closesPanel line = false)
    (hafter : ∀ line ∈ after.head?, isBarrier line = true) :
    splitClusters true (fields ++ after) =
      splitClusters true fields ++ splitClusters true after := by
  cases after with
  | nil => rw [splitClusters_nil, List.append_nil, List.append_nil]
  | cons line rest => rw [splitClusters_append (hafter line rfl), foldl_inLayout hfields]

theorem splitClusters_inside {opening : String} {inside fields after : List String}
    (hopening : opensLayout opening = true) (hinside : ∀ line ∈ inside, closesPanel line = false)
    (hfields : ∀ line ∈ fields, closesPanel line = false)
    (hstart : ∀ line ∈ (fields ++ after).head?, isBarrier line = true)
    (hafter : ∀ line ∈ after.head?, isBarrier line = true) :
    splitClusters false (opening :: inside ++ (fields ++ after)) =
      splitClusters false (opening :: inside) ++
        (splitClusters true fields ++ splitClusters true after) := by
  rw [splitClusters_panel hopening hinside hstart, splitClusters_fields hfields hafter]

theorem closesPanel_layoutFields : ∀ line ∈ layoutFields, closesPanel line = false :=
  fun line hline => closesPanel_of_isPlain (isPlain_layoutFields line hline)

/-- The section starts with a cluster. -/
theorem isBarrier_layoutFields (more : List String) :
    ∀ line ∈ (layoutFields ++ more).head?, isBarrier line = true := by
  obtain ⟨rest, hrest⟩ : ∃ rest, layoutFields = clusterStartLine :: rest := ⟨_, rfl⟩
  rw [hrest, List.cons_append]
  exact forall_head?_cons (by decide) _

/-- The sections are put in one after the other, and then the clusters are split. -/
theorem addSections_eq (lines : List String) (defaults : Node) :
    addSections lines defaults =
      splitMixed (addTypography (typographySection defaults)
        (if hasStagePod defaults then addLayout (kept lines defaults)
          else kept lines defaults)) := by
  have hempty (lines : List String) : addTypography [] lines = lines := by
    unfold addTypography
    have hnew : ∀ ls : List String, (insertBefore? opensLayout [] ls).getD ls = ls := by
      intro ls
      induction ls with
      | nil => rfl
      | cons l ls ih =>
        rw [insertBefore?]
        split
        · rfl
        · rcases hnew : insertBefore? opensLayout [] ls with _ | new
          · rfl
          · rw [hnew] at ih
            exact congrArg (l :: ·) ih
    simpa using hnew lines
  unfold addSections kept typographySection
  rcases roles? defaults with _ | roles
  · simp [hempty]
  · rfl

/-- Without an authored layout panel the sections stand behind the lines that stay. -/
theorem addSections_new {lines : List String} {defaults : Node}
    (h : ∀ line ∈ kept lines defaults, opensLayout line = false) :
    addSections lines defaults = kept lines defaults ++ typographySection defaults ++
      if hasStagePod defaults then panelOpen "layout" :: (layoutSection defaults ++ [panelClose])
      else [] := by
  have houtside : ∀ line ∈ kept lines defaults ++ typographySection defaults,
      opensLayout line = false := by
    intro line hline
    rcases List.mem_append.1 hline with hline | hline
    · exact h line hline
    · exact opensLayout_typographySection defaults line hline
  have hopening : opensLayout (panelOpen "layout") = true := by decide
  have hinside : ∀ line ∈ ([] : List String), closesPanel line = false := by simp
  have hend : ∀ line ∈ [panelClose].head?, isBarrier line = true := by decide
  have hpanel := splitClusters_inside hopening hinside closesPanel_layoutFields
    (isBarrier_layoutFields _) hend
  rw [splitClusters_singleton, splitClusters_singleton] at hpanel
  rw [addSections_eq, splitMixed, layoutSection]
  split
  · rw [addLayout_new h]
    generalize layoutFields = fields at hpanel ⊢
    rw [List.cons_append, addTypography_append h (forall_head?_cons hopening _),
      splitClusters_outside houtside]
    exact congrArg (kept lines defaults ++ typographySection defaults ++ ·) hpanel
  · have htypography : addTypography (typographySection defaults) (kept lines defaults ++ []) = _ :=
      addTypography_append h (by simp)
    rw [List.append_nil, List.append_nil] at htypography
    rw [htypography, List.append_nil]
    have hsplit := splitClusters_outside houtside []
    rw [List.append_nil, splitClusters, List.append_nil] at hsplit
    exact hsplit

/-- With an authored layout panel they stand in front of it and at its end. -/
theorem addSections_inside {lines before inside after : List String} {defaults : Node}
    {opening : String} (hkept : kept lines defaults = before ++ (opening :: inside ++ after))
    (hbefore : ∀ line ∈ before, opensLayout line = false) (hopening : opensLayout opening = true)
    (hinside : ∀ line ∈ inside, closesPanel line = false)
    (hafter : ∀ line ∈ after.head?, closesPanel line = true) :
    addSections lines defaults = before ++ typographySection defaults ++
      (splitClusters false (opening :: inside) ++ layoutSection defaults ++
        splitClusters true after) := by
  have houtside : ∀ line ∈ before ++ typographySection defaults, opensLayout line = false := by
    intro line hline
    rcases List.mem_append.1 hline with hline | hline
    · exact hbefore line hline
    · exact opensLayout_typographySection defaults line hline
  have hbarrier : ∀ line ∈ after.head?, isBarrier line = true := by
    intro line hline
    rw [isBarrier, hafter line hline, Bool.or_true]
  have hfirst (rest : List String) := forall_head?_cons hopening rest
  rw [addSections_eq, splitMixed, layoutSection, hkept]
  split
  · rw [List.cons_append, addLayout_inside hbefore hopening hinside hafter,
      addTypography_append hbefore (hfirst _), splitClusters_outside houtside]
    have hpanel := splitClusters_inside hopening hinside closesPanel_layoutFields
      (isBarrier_layoutFields _) hbarrier
    generalize layoutFields = fields at hpanel ⊢
    simp only [List.append_assoc, List.cons_append] at hpanel ⊢
    rw [hpanel]
  · rw [List.cons_append, addTypography_append hbefore (hfirst _),
      splitClusters_outside houtside, ← List.cons_append,
      splitClusters_panel hopening hinside hbarrier, List.append_nil]

/-- Nothing is generated in lines that are only split. -/
theorem splitMixed_inside {before inside after : List String} {opening : String}
    (hbefore : ∀ line ∈ before, opensLayout line = false) (hopening : opensLayout opening = true)
    (hinside : ∀ line ∈ inside, closesPanel line = false)
    (hafter : ∀ line ∈ after.head?, closesPanel line = true) :
    splitMixed (before ++ (opening :: inside ++ after)) =
      before ++ (splitClusters false (opening :: inside) ++ splitClusters true after) := by
  have hbarrier : ∀ line ∈ after.head?, isBarrier line = true := by
    intro line hline
    rw [isBarrier, hafter line hline, Bool.or_true]
  rw [splitMixed, splitClusters_outside hbefore, splitClusters_panel hopening hinside hbarrier]

/-- Lines up to a first one with a property, and those from it on. -/
theorem exists_first {p : String → Bool} (lines : List String) : ∃ before after,
    lines = before ++ after ∧ (∀ line ∈ before, p line = false) ∧
      ∀ line ∈ after.head?, p line = true := by
  refine ⟨lines.takeWhile (!p ·), lines.dropWhile (!p ·),
    List.takeWhile_append_dropWhile.symm, fun line hline => ?_, fun line hline => ?_⟩
  · simpa using List.mem_takeWhile_imp hline
  · have hfirst := List.head?_dropWhile_not (!p ·) lines
    rw [Option.mem_def.1 hline] at hfirst
    simpa using hfirst

/-- The lines of a document with its sections are those that stay and generated ones. -/
theorem mem_addSections {lines : List String} {defaults : Node} {line : String}
    (h : line ∈ addSections lines defaults) :
    line ∈ kept lines defaults ∨ line ∈ typographySection defaults ∨
      line ∈ layoutSection defaults ∨ line = panelOpen "layout" ∨ line = panelClose := by
  obtain ⟨before, more, hmore, hbefore, hfirst⟩ := exists_first (p := opensLayout)
    (kept lines defaults)
  rcases more with _ | ⟨opening, rest⟩
  · rw [List.append_nil] at hmore
    subst hmore
    rw [addSections_new hbefore] at h
    split at h
    · simp only [List.mem_append, List.mem_cons, List.not_mem_nil, or_false] at h
      rcases h with (hkept | htypography) | rfl | hlayout | rfl <;> simp [*]
    · simp only [List.append_nil, List.mem_append] at h
      rcases h with hkept | htypography <;> simp [*]
  · obtain ⟨inside, after, rfl, hinside, hafter⟩ := exists_first (p := closesPanel) rest
    rw [← List.cons_append] at hmore
    rw [addSections_inside hmore hbefore (hfirst opening rfl) hinside hafter] at h
    rw [hmore]
    simp only [List.mem_append, mem_splitClusters] at h ⊢
    rcases h with (hkept | htypography) | (hkept | hlayout) | hkept <;> simp [*]

end WidgetSchema.Generated
