-- The fields of a document when its mixed clusters are split. A split sorts the lines of a
-- cluster, and it writes the opening and the closing line twice. As long as the lines that it
-- keeps together hold whole tags, every field is still there, and only those on the two outer
-- lines are there once more.
import WidgetSchema.Proofs.Generated.Pieces
import WidgetSchema.Proofs.Markup.Balanced
import WidgetSchema.Proofs.Text.Split
namespace WidgetSchema.Generated

open Text Markup

/-! ## The text of lines -/

/-- Lines with a line break in front of each. -/
def ledText (lines : List String) : List Char := lines.flatMap fun line => '\n' :: line.toList

theorem ledText_append (as bs : List String) : ledText (as ++ bs) = ledText as ++ ledText bs :=
  List.flatMap_append

theorem cons_join {lines : List String} (h : lines ≠ []) :
    '\n' :: (join "\n" lines).toList = ledText lines :=
  cons_toList_join rfl h

theorem breaks_ledText (lines : List String) : Breaks (ledText lines) := by
  cases lines with
  | nil => exact breaks_nil
  | cons line lines => exact breaks_of_head? (.inr rfl)

theorem fieldsWithin_join (lines : List String) :
    fieldsWithin (join "\n" lines).toList = fieldsWithin (ledText lines) := by
  cases lines with
  | nil => rfl
  | cons line lines => rw [← cons_join (List.cons_ne_nil line lines), fieldsWithin_of_text rfl]

theorem endsTags_ledText {lines : List String} (h : EndsTags (join "\n" lines).toList) :
    EndsTags (ledText lines) := by
  cases lines with
  | nil => exact endsTags_of_unmarked rfl
  | cons line lines =>
    rw [← cons_join (List.cons_ne_nil line lines)]
    intro start hstart name hname
    rw [List.mem_tails, List.suffix_cons_iff] at hstart
    rcases hstart with rfl | hstart
    · cases hname
    · exact h start ((List.mem_tails _ _).2 hstart) name hname

/-- Lines that together hold whole tags. -/
def AreBalanced (lines : List String) : Prop := isBalanced (join "\n" lines).toList = true

theorem standsAlone_ledText {lines : List String} (h : AreBalanced lines) :
    StandsAlone (ledText lines) := by
  cases lines with
  | nil => exact standsAlone_nil
  | cons line lines =>
    rw [← cons_join (List.cons_ne_nil line lines)]
    exact (standsAlone_of_isBalanced h).text rfl rfl

theorem fields_of_line (line : String) : fieldsWithin (ledText [line]) = fieldsWithin line.toList := by
  rw [← fieldsWithin_join, join, String.intercalate_singleton]

theorem standsAlone_line {line : String} (h : isBalanced line.toList = true) :
    StandsAlone (ledText [line]) :=
  standsAlone_ledText (by rwa [AreBalanced, join, String.intercalate_singleton])

/-! ## The body of a cluster -/

/-- What the split keeps together in a cluster: the lines fall in runs that hold whole tags, and
of each run all lines bind the stage or none does. The outer lines hold whole tags, and no field
tag in front of the cluster is left without the end of its opening tag. -/
structure Separable (start : List String) (opening : String) (body : List String)
    (closing : String) : Prop where
  ahead : EndsTags (join "\n" start).toList
  opening : isBalanced opening.toList = true
  closing : isBalanced closing.toList = true
  body : ∃ runs : List (List String), runs.flatten = body ∧
    ∀ run ∈ runs, AreBalanced run ∧ ∃ stage, ∀ line ∈ run, isStage line = stage

/-- The lines of a body and the two parts of them are read on their own, and to the same fields. -/
structure FallsApart (body : List String) : Prop where
  whole : StandsAlone (ledText body)
  pods : StandsAlone (ledText (body.filter fun l => !isStage l))
  stages : StandsAlone (ledText (body.filter isStage))
  fields : (fieldsWithin (ledText (body.filter fun l => !isStage l)) ++
    fieldsWithin (ledText (body.filter isStage))).Perm (fieldsWithin (ledText body))

theorem fallsApart_nil : FallsApart [] where
  whole := standsAlone_nil
  pods := standsAlone_nil
  stages := standsAlone_nil
  fields := by simp [ledText, fieldsWithin_nil]

theorem fallsApart_of_run {run : List String} {stage : Bool} (h : AreBalanced run)
    (hstage : ∀ line ∈ run, isStage line = stage) : FallsApart run := by
  have hrun := standsAlone_ledText h
  have hempty : fieldsWithin (ledText []) = [] := fieldsWithin_nil
  rcases stage with _ | _
  · have hpods : run.filter (fun l => !isStage l) = run :=
      List.filter_eq_self.2 fun line hline => by simp [hstage line hline]
    have hstages : run.filter isStage = [] :=
      List.filter_eq_nil_iff.2 fun line hline => by simp [hstage line hline]
    exact ⟨hrun, by rwa [hpods], by rw [hstages]; exact standsAlone_nil, by
      rw [hpods, hstages, hempty, List.append_nil]⟩
  · have hpods : run.filter (fun l => !isStage l) = [] :=
      List.filter_eq_nil_iff.2 fun line hline => by simp [hstage line hline]
    have hstages : run.filter isStage = run :=
      List.filter_eq_self.2 fun line hline => by simp [hstage line hline]
    exact ⟨hrun, by rw [hpods]; exact standsAlone_nil, by rwa [hstages], by
      rw [hpods, hstages, hempty, List.nil_append]⟩

theorem FallsApart.append {as bs : List String} (ha : FallsApart as) (hb : FallsApart bs) :
    FallsApart (as ++ bs) := by
  have hbreaks (lines : List String) := breaks_ledText lines
  refine ⟨?_, ?_, ?_, ?_⟩
  · rw [ledText_append]
    exact ha.whole.append hb.whole (hbreaks _)
  · rw [List.filter_append, ledText_append]
    exact ha.pods.append hb.pods (hbreaks _)
  · rw [List.filter_append, ledText_append]
    exact ha.stages.append hb.stages (hbreaks _)
  · rw [List.filter_append, List.filter_append, ledText_append, ledText_append, ledText_append,
      ha.pods.fields _ (hbreaks _), ha.stages.fields _ (hbreaks _),
      ha.whole.fields _ (hbreaks _)]
    have hfirst := List.perm_iff_count.1 ha.fields
    have hrest := List.perm_iff_count.1 hb.fields
    refine List.perm_iff_count.2 fun field => ?_
    have hfirst := hfirst field
    have hrest := hrest field
    simp only [List.count_append] at hfirst hrest ⊢
    omega

theorem fallsApart_of_runs {runs : List (List String)}
    (h : ∀ run ∈ runs, AreBalanced run ∧ ∃ stage, ∀ line ∈ run, isStage line = stage) :
    FallsApart runs.flatten := by
  induction runs with
  | nil => exact fallsApart_nil
  | cons run runs ih =>
    obtain ⟨⟨hbalanced, stage, hstage⟩, hrest⟩ := List.forall_mem_cons.1 h
    exact (fallsApart_of_run hbalanced hstage).append (ih hrest)

/-! ## One cluster -/

/-- The fields of the outer lines of a cluster. -/
def Piece.outerFields : Piece → List (Option (List Char) × Attributes)
  | .line _ => []
  | .cluster opening _ closing => fieldsWithin opening.toList ++ fieldsWithin closing.toList

/-- The split of one cluster, with whatever behind it: the fields of its outer lines are there
once more. -/
theorem fields_of_cluster {start : List String} {opening closing : String} {body : List String}
    (h : Separable start opening body closing) (after : List String) :
    (fieldsWithin (ledText start ++
      (ledText (Piece.cluster opening body closing).split ++ ledText after))).Perm
      ((Piece.cluster opening body closing).outerFields ++ fieldsWithin (ledText start ++
        (ledText (Piece.cluster opening body closing).lines ++ ledText after))) := by
  obtain ⟨runs, rfl, hruns⟩ := h.body
  have hbody := fallsApart_of_runs hruns
  have hopening := standsAlone_line h.opening
  have hclosing := standsAlone_line h.closing
  have hbreaks (lines : List String) := breaks_ledText lines
  have hinner {lines : List String} (hlines : StandsAlone (ledText lines)) :
      StandsAlone (ledText (opening :: (lines ++ [closing]))) ∧
        fieldsWithin (ledText (opening :: (lines ++ [closing]))) =
          fieldsWithin opening.toList ++
            (fieldsWithin (ledText lines) ++ fieldsWithin closing.toList) := by
    rw [← List.singleton_append, ledText_append, ledText_append]
    have hrest := hlines.append hclosing (hbreaks _)
    rw [hopening.fields _ ((hbreaks _).append (hbreaks _)), hlines.fields _ (hbreaks _),
      fields_of_line, fields_of_line]
    exact ⟨hopening.append hrest ((hbreaks _).append (hbreaks _)), rfl⟩
  obtain ⟨hwhole, hwholeFields⟩ := hinner hbody.whole
  rw [show opening :: (runs.flatten ++ [closing]) =
    (Piece.cluster opening runs.flatten closing).lines from rfl] at hwhole hwholeFields
  obtain ⟨hpods, hpodsFields⟩ := hinner hbody.pods
  obtain ⟨hstages, hstagesFields⟩ := hinner hbody.stages
  refine fieldsWithin_exchange hwhole ?_ (hbreaks _) (hbreaks _) ?_ (endsTags_ledText h.ahead)
    (hbreaks after)
  · rw [Piece.split, ledText_append]
    exact hpods.append hstages (hbreaks _)
  · simp only [Piece.split, Piece.outerFields]
    rw [ledText_append, hpods.fields _ (hbreaks _), hwholeFields, hpodsFields, hstagesFields]
    refine List.perm_iff_count.2 fun field => ?_
    have hfields := List.perm_iff_count.1 hbody.fields field
    simp only [List.count_append] at hfields ⊢
    omega

/-! ## A document -/

/-- A cluster of a document that is split. -/
structure IsSplit (lines start : List String) (opening : String) (body : List String)
    (closing : String) : Prop where
  found : ∃ after, lines = start ++ opening :: (body ++ closing :: after) ∧
    PanelCluster (start.foldl inLayout false) opening body closing after
  mixed : isMixed body = true

theorem fields_of_pieces {ps : List Piece} (start : List String)
    (h : ∀ front opening body closing back, ps = front ++ .cluster opening body closing :: back →
      Separable (start ++ front.flatMap Piece.lines) opening body closing) :
    (fieldsWithin (ledText start ++ ledText (ps.flatMap Piece.split))).Perm
      (ps.flatMap Piece.outerFields ++
        fieldsWithin (ledText start ++ ledText (ps.flatMap Piece.lines))) := by
  induction ps generalizing start with
  | nil => exact .refl _
  | cons p ps ih =>
    have hrest := ih (start ++ p.lines) fun front opening body closing back hback => by
      have hsep := h (p :: front) opening body closing back (by rw [hback]; rfl)
      rwa [List.flatMap_cons, ← List.append_assoc] at hsep
    simp only [ledText_append, List.append_assoc, List.flatMap_cons] at hrest ⊢
    cases p with
    | line l => exact hrest
    | cluster opening body closing =>
      have hsep := h [] opening body closing ps rfl
      rw [List.flatMap_nil, List.append_nil] at hsep
      exact (fields_of_cluster hsep _).trans (hrest.append_left _)

/-- Where the lines of every cluster that is split can be told apart, the split keeps all fields
and doubles none just if no field stands on an outer line of such a cluster. -/
theorem fields_are_kept_iff_none_is_on_an_outer_line (lines : List String)
    (h : ∀ start opening body closing, IsSplit lines start opening body closing →
      Separable start opening body closing) :
    (fieldsWithin (join "\n" (splitMixed lines)).toList).Perm
        (fieldsWithin (join "\n" lines).toList) ↔
      ∀ start opening body closing, IsSplit lines start opening body closing →
        fieldsWithin opening.toList = [] ∧ fieldsWithin closing.toList = [] := by
  obtain ⟨pieces, rfl, hcut⟩ := exists_cut false lines
  have hsplit : splitMixed (pieces.flatMap Piece.lines) = pieces.flatMap Piece.split :=
    splitClusters_of_cut hcut
  have hpiece {front back : List Piece} {opening closing : String} {body : List String}
      (hback : pieces = front ++ .cluster opening body closing :: back) :
      IsSplit (pieces.flatMap Piece.lines) (front.flatMap Piece.lines) opening body closing := by
    obtain ⟨hcluster, hmixed⟩ := mixed_of_piece (hback ▸ hcut)
    exact ⟨⟨_, by rw [hback]; simp [Piece.lines], hcluster⟩, hmixed⟩
  have hfields := @fields_of_pieces pieces [] fun front opening body closing back hback => by
    rw [List.nil_append]
    exact h _ _ _ _ (hpiece hback)
  rw [fieldsWithin_join, fieldsWithin_join, hsplit]
  constructor
  · intro hperm start opening body closing hfound
    obtain ⟨⟨after, hlines, hcluster⟩, hmixed⟩ := hfound
    obtain ⟨front, back, hback, -⟩ := exists_piece_of_mixed hcut hlines hcluster hmixed
    have hlength := (hfields.symm.trans hperm).length_eq
    rw [List.length_append] at hlength
    have hnone : pieces.flatMap Piece.outerFields = [] := by
      apply List.eq_nil_of_length_eq_zero
      simp only [ledText, List.flatMap_nil, List.nil_append] at hlength ⊢
      omega
    have hpieceNone := List.flatMap_eq_nil_iff.1 hnone (.cluster opening body closing)
      (hback ▸ List.mem_append_right front List.mem_cons_self)
    exact List.append_eq_nil_iff.1 hpieceNone
  · intro hnone
    have houter : pieces.flatMap Piece.outerFields = [] := by
      refine List.flatMap_eq_nil_iff.2 fun p hp => ?_
      cases p with
      | line l => rfl
      | cluster opening body closing =>
        obtain ⟨front, back, hback⟩ := List.append_of_mem hp
        exact List.append_eq_nil_iff.2 (hnone _ _ _ _ (hpiece hback))
    rw [houter, List.nil_append] at hfields
    exact hfields

/-- The one cluster of a box is the one that is split. -/
theorem eq_of_isSplit {start : List String} {opening closing : String} {inner body : List String}
    (hinner : ∀ line ∈ inner, isBarrier line = false ∧ closesCluster line = false)
    (h : IsSplit (boxOf "<tooldrawer-cluster>" inner) start opening body closing) :
    start = ["<bob-panel id='layout'>"] ∧ opening = "<tooldrawer-cluster>" ∧ body = inner ∧
      closing = "</tooldrawer-cluster>" := by
  obtain ⟨⟨after, hlines, hcluster⟩, -⟩ := h
  have hclosed : clusterLines? (inner ++ "</tooldrawer-cluster>" :: ["</bob-panel>"]) =
      some (inner, "</tooldrawer-cluster>", ["</bob-panel>"]) :=
    clusterLines?_eq_some_iff.2 ⟨rfl, hinner, by decide +kernel, by decide +kernel⟩
  rw [boxOf, List.singleton_append] at hlines
  rcases start with _ | ⟨first, _ | ⟨second, start⟩⟩
  · -- The line of the panel opens no cluster.
    obtain ⟨rfl, -⟩ := List.cons.inj hlines
    exact absurd hcluster.opens (by decide +kernel)
  · obtain ⟨rfl, hrest⟩ := List.cons.inj hlines
    obtain ⟨rfl, hbody⟩ := List.cons.inj hrest
    rw [hbody, hcluster.closed] at hclosed
    cases hclosed
    exact ⟨rfl, rfl, rfl, rfl⟩
  · -- Nor does a line in the cluster or behind it.
    obtain ⟨-, hrest⟩ := List.cons.inj hlines
    obtain ⟨-, hbehind⟩ := List.cons.inj hrest
    have hopening : opening ∈ inner ++ "</tooldrawer-cluster>" :: ["</bob-panel>"] :=
      hbehind ▸ List.mem_append_right start List.mem_cons_self
    have hopen : opensCluster opening = false := by
      rcases List.mem_append.1 hopening with hin | hend
      · exact (Bool.or_eq_false_iff.1 (hinner opening hin).1).1
      · rcases List.mem_pair.1 hend with rfl | rfl <;> decide +kernel
    cases hcluster.opens.symm.trans hopen

/-- A list of the pod on three lines, and two fields of the stage on one. -/
def listBody : List String :=
  ["<tooldrawer-field path='pod.items'>", "<tooldrawer-field path='pod.items.__i__' />",
    "</tooldrawer-field>", "<tooldrawer-field path='stage.a' /><tooldrawer-field path='stage.b' />"]

theorem the_fields_of_a_list_are_kept :
    IsSplit (boxOf "<tooldrawer-cluster>" listBody) ["<bob-panel id='layout'>"]
      "<tooldrawer-cluster>" listBody "</tooldrawer-cluster>" ∧
    (fieldsWithin (join "\n" (splitMixed (boxOf "<tooldrawer-cluster>" listBody))).toList).Perm
      (fieldsWithin (join "\n" (boxOf "<tooldrawer-cluster>" listBody)).toList) := by
  have hinner : ∀ line ∈ listBody, isBarrier line = false ∧ closesCluster line = false := by
    decide +kernel
  have hlist : Separable ["<bob-panel id='layout'>"] "<tooldrawer-cluster>" listBody
      "</tooldrawer-cluster>" := by
    refine ⟨by decide +kernel, by decide +kernel, by decide +kernel,
      [listBody.take 3, listBody.drop 3], rfl, ?_⟩
    simp only [List.forall_mem_cons, List.not_mem_nil, false_imp_iff, implies_true, and_true,
      AreBalanced]
    exact ⟨⟨by decide +kernel, false, by decide +kernel⟩, by decide +kernel, true,
      by decide +kernel⟩
  have hkept := fields_are_kept_iff_none_is_on_an_outer_line
    (boxOf "<tooldrawer-cluster>" listBody) fun start opening body closing h => by
      obtain ⟨rfl, rfl, rfl, rfl⟩ := eq_of_isSplit hinner h
      exact hlist
  refine ⟨⟨⟨_, rfl, ?_, ?_, ?_, ?_⟩, ?_⟩, hkept.2 fun start opening body closing h => ?_⟩
  · decide +kernel
  · decide +kernel
  · decide +kernel
  · decide +kernel
  · decide +kernel
  · obtain ⟨rfl, rfl, rfl, rfl⟩ := eq_of_isSplit hinner h
    decide +kernel

/-- A tag of the stage that is closed on a line of its own is torn apart, and lost. -/
theorem fields_are_not_always_kept :
    ¬ ∀ lines : List String, (fieldsWithin (join "\n" (splitMixed lines)).toList).Perm
      (fieldsWithin (join "\n" lines).toList) := by
  intro h
  have hlength := (h (boxOf "<tooldrawer-cluster>"
    ["<tooldrawer-field path='stage.a'>", "</tooldrawer-field>",
      "<tooldrawer-field path='pod.b' />"])).length_eq
  rw [fieldsWithin_join, fieldsWithin_join] at hlength
  revert hlength
  decide +kernel

end WidgetSchema.Generated
