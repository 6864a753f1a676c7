-- Panels read line by line. What is read of lines is made of what is read of each one, as long
-- as no opening tag runs over the end of its line.
import WidgetSchema.Proofs.Markup.PanelReader
namespace WidgetSchema.Markup

open Text

/-! ## Lines -/

/-- A reading that goes on with more text. -/
def Reading.go (r : Reading) (cs : List Char) : Reading :=
  ⟨r.panels ++ (readPanels r.opened cs).panels, (readPanels r.opened cs).opened⟩

/-- The text of lines, each with its end. -/
def linesText (lines : List String) : List Char := lines.flatMap fun line => line.toList ++ ['\n']

/-- Every opening tag of a panel that starts in the text also ends in it: what comes in later
lines does not count. -/
def IsWhole (cs : List Char) : Prop :=
  ∀ start, start <:+ cs → ∀ more,
    openingAt? (start ++ '\n' :: more) =
      (openingAt? start).map fun p => (p.1, p.2 ++ '\n' :: more)

theorem IsWhole.of_suffix {cs more : List Char} (h : IsWhole cs) (hmore : more <:+ cs) :
    IsWhole more := fun start hstart => h start (hstart.trans hmore)

/-- It is enough that what starts as an opening tag is one. -/
theorem isWhole_of_opening {cs : List Char}
    (h : ∀ start ∈ cs.tails, (dropFolded Char.toLower panelOpen start).isSome →
      (openingAt? start).isSome) : IsWhole cs := by
  intro start hstart more
  rcases hopen : openingAt? start with _ | ⟨id, body⟩
  · have hname : dropFolded Char.toLower panelOpen start = none := by
      rcases hdrop : dropFolded Char.toLower panelOpen start with _ | rest
      · rfl
      · have hsome := h start ((List.mem_tails _ _).2 hstart) (by rw [hdrop]; rfl)
        rw [hopen] at hsome
        cases hsome
    rw [openingAt?, dropFolded_across (by decide), hname]
    rfl
  · rw [openingAt?_append hopen, Option.map_some]

theorem readPanels_line {cs : List Char} (h : IsWhole cs) (o : Option OpenPanel)
    (more : List Char) :
    readPanels o (cs ++ '\n' :: more) = (readPanels o cs).go ('\n' :: more) := by
  induction hlength : cs.length using Nat.strongRecOn generalizing o cs with
  | ind n ih =>
    subst hlength
    rcases o with _ | o
    · rcases cs with _ | ⟨c, cs⟩
      · simp [readPanels_nil, Reading.go]
      have hwhole := h (c :: cs) List.suffix_rfl more
      rw [List.cons_append] at hwhole ⊢
      rw [readPanels_none_cons, hwhole, readPanels_none_cons]
      rcases hopen : openingAt? (c :: cs) with _ | ⟨id, body⟩
      · exact ih _ (Nat.lt_succ_self _) (h.of_suffix (List.suffix_cons c cs)) none rfl
      · have hbody := suffix_of_openingAt? hopen
        exact ih _ (Nat.lt_succ_of_le hbody.length_le)
          (h.of_suffix (hbody.trans (List.suffix_cons c cs))) _ rfl
    · rw [readPanels_some, readPanels_some]
      rcases hclose : cutFolded Char.toLower panelClose cs with _ | ⟨markup, word, after⟩
      · rw [cutFolded_across hclose (by decide)]
        simp only [Reading.go, readPanels_some]
        rcases cutFolded Char.toLower panelClose ('\n' :: more) with _ | ⟨m, w, a⟩ <;> simp
      · have hafter : after <:+ cs := ⟨markup ++ word, (append_of_cutFolded hclose).1.symm⟩
        have hlt : after.length < cs.length := by
          have := length_cutFolded hclose
          have hlength : panelClose.length = 12 := rfl
          omega
        rw [cutFolded_append hclose]
        simp only [ih _ hlt (h.of_suffix hafter) none rfl, Reading.go, List.cons_append]

/-- The end of a line is a part of the panel that is open. -/
theorem Reading.go_newline (r : Reading) (more : List Char) :
    r.go ('\n' :: more) = (r.go ['\n']).go more := by
  rcases r with ⟨ps, _ | o⟩
  · have hnone (cs : List Char) : readPanels none ('\n' :: cs) = readPanels none cs := by
      rw [readPanels_none_cons]
      rfl
    simp only [Reading.go, hnone, readPanels_nil, List.append_nil]
  · have hcut : cutFolded Char.toLower panelClose ('\n' :: more) =
        (cutFolded Char.toLower panelClose more).map fun p => ('\n' :: p.1, p.2) := rfl
    have hend : cutFolded Char.toLower panelClose ['\n'] = none := rfl
    simp only [Reading.go, readPanels_some, hcut, hend, List.append_nil]
    rcases cutFolded Char.toLower panelClose more with _ | ⟨markup, word, after⟩ <;> simp

theorem Reading.go_append {as more : List Char}
    (h : ∀ o, readPanels o (as ++ more) = (readPanels o as).go more) (r : Reading) :
    r.go (as ++ more) = (r.go as).go more := by
  simp only [Reading.go, h, List.append_assoc]

theorem linesText_cons (line : String) (lines : List String) :
    linesText (line :: lines) = line.toList ++ '\n' :: linesText lines := by
  rw [linesText, List.flatMap_cons, List.append_assoc]
  rfl

theorem linesText_append (as bs : List String) :
    linesText (as ++ bs) = linesText as ++ linesText bs := List.flatMap_append

/-- Lines are read one after the other. -/
theorem readPanels_lines {lines : List String} (h : ∀ line ∈ lines, IsWhole line.toList)
    (o : Option OpenPanel) (more : List Char) :
    readPanels o (linesText lines ++ more) = (readPanels o (linesText lines)).go more := by
  induction lines generalizing o with
  | nil => simp [linesText, readPanels_nil, Reading.go]
  | cons line lines ih =>
    have hline := readPanels_line (h line List.mem_cons_self) o
    have hrest := ih fun l hl => h l (List.mem_cons_of_mem line hl)
    rw [linesText_cons, List.append_assoc, List.cons_append, hline, hline, Reading.go_newline,
      Reading.go_newline _ (linesText lines), Reading.go_append hrest]

/-- Lines that are joined have their ends, but for the last one. -/
theorem toList_join (before : List String) (last : String) :
    (join "\n" (before ++ [last])).toList = linesText before ++ last.toList := by
  induction before with
  | nil => exact congrArg String.toList String.intercalate_singleton
  | cons line before ih =>
    obtain ⟨next, rest, hnext⟩ : ∃ next rest, before ++ [last] = next :: rest :=
      List.exists_cons_of_ne_nil (by simp)
    rw [hnext] at ih
    rw [List.cons_append, hnext, join, String.intercalate_cons_cons, String.toList_append,
      String.toList_append, show (String.intercalate "\n" (next :: rest)).toList = _ from ih,
      linesText_cons, List.append_assoc, List.append_assoc]
    rfl

theorem Reading.go_lines {lines : List String} (h : ∀ line ∈ lines, IsWhole line.toList)
    (r : Reading) (more : List Char) :
    r.go (linesText lines ++ more) = (r.go (linesText lines)).go more :=
  Reading.go_append (fun o => readPanels_lines h o more) r

theorem linesText_cons_append (line : String) (rest : List String) :
    linesText (line :: rest) = linesText [line] ++ linesText rest :=
  linesText_append [line] rest

/-! ## Text without panel tags -/

/-- Neither an opening tag of a panel nor a closing one starts in the text. -/
structure IsPlain (cs : List Char) : Prop where
  opening : cutFolded Char.toLower panelOpen cs = none
  closing : cutFolded Char.toLower panelClose cs = none

instance (cs : List Char) : Decidable (IsPlain cs) :=
  decidable_of_iff (cutFolded Char.toLower panelOpen cs = none ∧
      cutFolded Char.toLower panelClose cs = none)
    ⟨fun h => ⟨h.1, h.2⟩, fun h => ⟨h.opening, h.closing⟩⟩

/-- Only a bracket starts a tag. -/
theorem isPlain_of_notMem {cs : List Char} (h : '<' ∉ cs) : IsPlain cs :=
  ⟨cutFolded_of_notMem_bracket (by decide) h, cutFolded_of_notMem_bracket (by decide) h⟩

/-- A tag of another name with no bracket in it. -/
theorem isPlain_tag {before rest : List Char} (hbefore : '<' ∉ before) (hrest : '<' ∉ rest)
    (hopen : dropFolded Char.toLower panelOpen ('<' :: rest) = none)
    (hclose : dropFolded Char.toLower panelClose ('<' :: rest) = none) :
    IsPlain (before ++ '<' :: rest) := by
  obtain ⟨hopenBefore, hcloseBefore⟩ := isPlain_of_notMem hbefore
  obtain ⟨hopenRest, hcloseRest⟩ := isPlain_of_notMem hrest
  constructor
  · rw [cutFolded_across hopenBefore (by decide),
      cutFolded_cons_eq_none_iff.2 ⟨hopen, hopenRest⟩, Option.map_none]
  · rw [cutFolded_across hcloseBefore (by decide),
      cutFolded_cons_eq_none_iff.2 ⟨hclose, hcloseRest⟩, Option.map_none]

theorem IsPlain.isWhole {cs : List Char} (h : IsPlain cs) : IsWhole cs := by
  refine isWhole_of_opening fun start hstart hsome => ?_
  rw [dropFolded_of_cutFolded (by decide) h.opening ((List.mem_tails _ _).1 hstart)] at hsome
  cases hsome

/-- Plain text changes nothing but the text of the panel that is open. -/
theorem IsPlain.read {cs : List Char} (h : IsPlain cs) (o : Option OpenPanel) :
    readPanels o cs = ⟨[], o.map fun o => ⟨o.id, o.text ++ cs⟩⟩ := by
  rcases o with _ | o
  · induction cs with
    | nil => rw [readPanels_nil]; rfl
    | cons c cs ih =>
      obtain ⟨hopen, hclose⟩ := h
      obtain ⟨hnone, hopen⟩ := cutFolded_cons_eq_none_iff.1 hopen
      rw [readPanels_none_cons, openingAt?, hnone]
      exact ih ⟨hopen, (cutFolded_cons_eq_none_iff.1 hclose).2⟩
  · rw [readPanels_some, h.closing]
    rfl

theorem IsPlain.opened {cs : List Char} (h : IsPlain cs) (o : Option OpenPanel) :
    (readPanels o cs).opened.map (·.id) = o.map (·.id) := by
  rw [h.read, Option.map_map]
  rfl

/-- A word that is on no line is in no lines either. -/
theorem cutFolded_linesText {word : List Char} (hne : word ≠ [])
    (hword : Char.toLower '\n' ∉ word)
    {lines : List String} (h : ∀ line ∈ lines, cutFolded Char.toLower word line.toList = none) :
    cutFolded Char.toLower word (linesText lines) = none := by
  induction lines with
  | nil => exact if_neg hne
  | cons line lines ih =>
    have hend : dropFolded Char.toLower word ('\n' :: linesText lines) = none := by
      have hacross := @dropFolded_across Char.toLower word [] _ hword (linesText lines)
      cases word with
      | nil => exact absurd rfl hne
      | cons w word => exact hacross
    have hrest := ih fun l hl => h l (List.mem_cons_of_mem line hl)
    rw [linesText_cons, cutFolded_across (h line List.mem_cons_self)
      (fun hmem => hword (List.mem_of_mem_tail hmem)),
      cutFolded_cons_eq_none_iff.2 ⟨hend, hrest⟩, Option.map_none]

theorem isPlain_linesText {lines : List String} (h : ∀ line ∈ lines, IsPlain line.toList) :
    IsPlain (linesText lines) :=
  ⟨cutFolded_linesText (by decide) (by decide) fun line hline => (h line hline).opening,
    cutFolded_linesText (by decide) (by decide) fun line hline => (h line hline).closing⟩

/-- A panel with plain text in it, from its opening line to its closing line. -/
theorem readPanels_panel {opening close : String} {id : List Char} {lines : List String}
    (hopening : openingAt? opening.toList = some (id, [])) (hclose : close.toList = panelClose)
    (hlines : ∀ line ∈ lines, IsPlain line.toList) :
    readPanels none (linesText (opening :: (lines ++ [close]))) =
      ⟨[⟨String.ofList id, String.ofList ('\n' :: linesText lines)⟩], none⟩ := by
  obtain ⟨hplain, hunclosed⟩ := isPlain_linesText hlines
  have hcut : cutFolded Char.toLower panelClose
      ('\n' :: (linesText lines ++ (panelClose ++ ['\n']))) =
        some ('\n' :: linesText lines, panelClose, ['\n']) := by
    have hprefix : cutFolded Char.toLower panelClose ('\n' :: linesText lines) = none :=
      cutFolded_cons_eq_none_iff.2 ⟨rfl, hunclosed⟩
    have hself : cutFolded Char.toLower panelClose (panelClose ++ ['\n']) =
        some ([], panelClose, ['\n']) := cutFolded_append_self (by decide) (by decide) _
    have hname : panelClose ++ ['\n'] = '<' :: (panelClose.tail ++ ['\n']) := rfl
    rw [hname] at hself ⊢
    rw [← List.cons_append, cutFolded_across hprefix (by decide), hself]
    simp
  have hopen := openingAt?_append hopening ('\n' :: (linesText lines ++ (panelClose ++ ['\n'])))
  have hlast : linesText [close] = panelClose ++ ['\n'] := by
    rw [linesText_cons, hclose]
    rfl
  rw [linesText_cons, linesText_append, hlast]
  rcases hchars : opening.toList with _ | ⟨c, cs⟩
  · rw [hchars, openingAt?_nil] at hopening
    cases hopening
  rw [hchars] at hopen
  rw [List.cons_append] at hopen ⊢
  rw [readPanels_none_cons, hopen]
  simp only [List.nil_append]
  rw [readPanels_some, hcut]
  simp only [readPanels_none_cons, readPanels_nil]
  rfl

/-! ## The panels of a document -/

/-- The panels of a document are those of its lines. -/
theorem panels_join {lines : List String} (h : ∀ line ∈ lines, IsWhole line.toList) :
    panels (join "\n" lines) = (readPanels none (linesText lines)).panels := by
  rcases List.eq_nil_or_concat lines with rfl | ⟨before, last, rfl⟩
  · rw [panels, panelsIn_eq]
    rfl
  rw [List.concat_eq_append] at h ⊢
  have hbefore := readPanels_lines (fun line hline => h line (List.mem_append_left _ hline)) none
  have hlast : (readPanels none (linesText before)).go (last.toList ++ ['\n']) =
      ((readPanels none (linesText before)).go last.toList).go ['\n'] :=
    Reading.go_append (fun o => readPanels_line (h last (by simp)) o []) _
  -- The end of the last line closes no panel.
  have hend (r : Reading) : (r.go ['\n']).panels = r.panels := by
    rcases r with ⟨ps, _ | o⟩
    · simp only [Reading.go, readPanels_none_cons, readPanels_nil]
      exact List.append_nil ps
    · simp only [Reading.go, readPanels_some]
      exact List.append_nil ps
  rw [panels, panelsIn_eq, toList_join, hbefore, linesText_append, hbefore, linesText_cons]
  exact ((congrArg Reading.panels hlast).trans (hend _)).symm

end WidgetSchema.Markup
