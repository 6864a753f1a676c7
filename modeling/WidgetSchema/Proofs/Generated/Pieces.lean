-- A document as lines that stay and clusters that are split. A split leaves two clusters of which
-- neither binds both stage and pod, and to a line in front of them they look as the one cluster
-- did: something that opens. So a second run finds the same clusters closed, and none to split.
import Mathlib.Data.List.Basic
import WidgetSchema.Generated.Layout
namespace WidgetSchema.Generated

open Text Markup

/-! ## The lines of a cluster -/

/-- A line across which no cluster reaches. -/
def isBarrier (line : String) : Bool := opensCluster line || closesPanel line

/-- A cluster reaches to the first line that closes it, when no line up to there is a barrier. -/
theorem clusterLines?_eq_some_iff {lines body after : List String} {close : String} :
    clusterLines? lines = some (body, close, after) ↔
      lines = body ++ close :: after ∧
        (∀ line ∈ body, isBarrier line = false ∧ closesCluster line = false) ∧
        isBarrier close = false ∧ closesCluster close = true := by
  constructor
  · intro h
    induction lines generalizing body with
    | nil => cases h
    | cons line rest ih =>
      rw [clusterLines?] at h
      split at h
      · cases h
      rename_i hbarrier
      rw [Bool.not_eq_true] at hbarrier
      split at h
      · rename_i hclose
        cases h
        exact ⟨rfl, by simp, hbarrier, hclose⟩
      · rename_i hclose
        obtain ⟨⟨b, c, a⟩, hb, he⟩ := Option.map_eq_some_iff.1 h
        cases he
        obtain ⟨rfl, hbody, hend⟩ := ih hb
        exact ⟨rfl, List.forall_mem_cons.2 ⟨⟨hbarrier, Bool.eq_false_iff.2 hclose⟩, hbody⟩, hend⟩
  · rintro ⟨rfl, hbody, hbarrier, hclose⟩
    induction body with
    | nil =>
      have hopen : ¬ (opensCluster close || closesPanel close) = true := by
        rw [Bool.not_eq_true]
        exact hbarrier
      rw [List.nil_append, clusterLines?, if_neg hopen, if_pos hclose]
    | cons line body ih =>
      obtain ⟨⟨hline, hstays⟩, hrest⟩ := List.forall_mem_cons.1 hbody
      have hopen : ¬ (opensCluster line || closesPanel line) = true := by
        rw [Bool.not_eq_true]
        exact hline
      rw [List.cons_append, clusterLines?, if_neg hopen, if_neg (by simp [hstays]), ih hrest]
      rfl

theorem not_isBarrier_of_clusterLines? {lines body after : List String} {close : String}
    (h : clusterLines? lines = some (body, close, after)) :
    ∀ line ∈ body ++ [close], isBarrier line = false := by
  obtain ⟨-, hbody, hclose, -⟩ := clusterLines?_eq_some_iff.1 h
  intro line hline
  rcases List.mem_append.1 hline with hline | hline
  · exact (hbody line hline).1
  · exact List.mem_singleton.1 hline ▸ hclose

/-- What the lines of a cluster are. -/
theorem lines_of_clusterLines? {lines body after : List String} {close : String}
    (h : clusterLines? lines = some (body, close, after)) :
    lines = body ++ close :: after ∧ ∀ line ∈ body ++ [close], closesPanel line = false :=
  ⟨(clusterLines?_eq_some_iff.1 h).1, fun line hline =>
    (Bool.or_eq_false_iff.1 (not_isBarrier_of_clusterLines? h line hline)).2⟩

/-- Lines may be missing from a cluster. -/
theorem clusterLines?_filter {body after : List String} {close : String}
    (h : clusterLines? (body ++ close :: after) = some (body, close, after)) (p : String → Bool)
    (more : List String) :
    clusterLines? (body.filter p ++ close :: more) = some (body.filter p, close, more) := by
  obtain ⟨-, hbody, hend⟩ := clusterLines?_eq_some_iff.1 h
  exact clusterLines?_eq_some_iff.2
    ⟨rfl, fun line hline => hbody line (List.mem_filter.1 hline).1, hend⟩

/-! ## The layout panel -/

theorem inLayout_of_open {line : String} (h : closesPanel line = false) :
    inLayout true line = true := by
  unfold inLayout
  split
  · rfl
  · rw [h]
    rfl

/-- The layout panel goes on until a line closes it. -/
theorem foldl_inLayout {lines : List String} (h : ∀ line ∈ lines, closesPanel line = false) :
    lines.foldl inLayout true = true := by
  induction lines with
  | nil => rfl
  | cons line lines ih =>
    rw [List.foldl_cons, inLayout_of_open (h line List.mem_cons_self)]
    exact ih fun l hl => h l (List.mem_cons_of_mem line hl)

/-- A line that is in the panel is so behind every line of the panel. -/
theorem inLayout_of_inside {before : Bool} {line : String} (h : inLayout before line = true) :
    inLayout true line = true := by
  unfold inLayout at h ⊢
  split
  · rfl
  · rename_i hopen
    rw [if_neg hopen] at h
    split at h
    · cases h
    · rename_i hclose
      rw [if_neg hclose]

/-! ## One step of the split -/

/-- A cluster of the layout panel that is closed, at the start of lines behind a line that is in
the panel or not. -/
structure PanelCluster (before : Bool) (opening : String) (body : List String) (closing : String)
    (after : List String) : Prop where
  inside : inLayout before opening = true
  opens : opensCluster opening = true
  stays : closesCluster opening = false
  closed : clusterLines? (body ++ closing :: after) = some (body, closing, after)

/-- A line that stays as it is, or a cluster that is split. -/
inductive Piece where
  | line (l : String)
  | cluster (opening : String) (body : List String) (closing : String)

def Piece.lines : Piece → List String
  | .line l => [l]
  | .cluster opening body closing => opening :: (body ++ [closing])

/-- Of a cluster the lines that do not bind the stage and those that do, each part between the
opening and the closing line. -/
def Piece.split : Piece → List String
  | .line l => [l]
  | .cluster opening body closing =>
    opening :: (body.filter (fun l => !isStage l) ++ [closing]) ++
      opening :: (body.filter isStage ++ [closing])

variable {before : Bool} {opening closing line : String} {body after rest : List String}
  {ps : List Piece}

theorem splitClusters_nil (before : Bool) : splitClusters before [] = [] := by
  rw [splitClusters]

theorem splitClusters_cons (before : Bool) (line : String) (rest : List String) :
    splitClusters before (line :: rest) =
      match clusterLines? rest with
      | some (body, close, after) =>
        if inLayout before line && opensCluster line && !closesCluster line && isMixed body then
          line :: (body.filter fun l => !isStage l) ++ close ::
            line :: body.filter isStage ++ close :: splitClusters (inLayout before line) after
        else line :: splitClusters (inLayout before line) rest
      | none => line :: splitClusters (inLayout before line) rest := by
  rw [splitClusters]
  split
  · rename_i h
    simp only [h]
  · rename_i h
    simp only [h]

theorem splitClusters_cluster (h : PanelCluster before opening body closing after)
    (hmixed : isMixed body = true) :
    splitClusters before (opening :: (body ++ closing :: after)) =
      (Piece.cluster opening body closing).split ++ splitClusters true after := by
  rw [splitClusters_cons, h.closed]
  simp [h.inside, h.opens, h.stays, hmixed, Piece.split]

/-- Every other line stays. -/
theorem splitClusters_line (h : ∀ body closing after, rest = body ++ closing :: after →
      PanelCluster before line body closing after → isMixed body = false) :
    splitClusters before (line :: rest) = line :: splitClusters (inLayout before line) rest := by
  rw [splitClusters_cons]
  rcases hclosed : clusterLines? rest with _ | ⟨body, closing, after⟩
  · rfl
  dsimp only
  obtain ⟨hrest, -⟩ := clusterLines?_eq_some_iff.1 hclosed
  split
  · rename_i hsplit
    simp only [Bool.and_eq_true, Bool.not_eq_true'] at hsplit
    obtain ⟨⟨⟨hinside, hopens⟩, hstays⟩, hmixed⟩ := hsplit
    have hplain := h body closing after hrest ⟨hinside, hopens, hstays, hrest ▸ hclosed⟩
    cases hmixed.symm.trans hplain
  · rfl

/-- A line that stays in front of some lines stays in front of others, if a cluster that is closed
in these is closed in those with the same lines. -/
theorem splitClusters_line_of (h : ∀ body closing after, rest = body ++ closing :: after →
      PanelCluster before line body closing after → isMixed body = false) (others : List String)
    (hclosed : ∀ body closing after, clusterLines? others = some (body, closing, after) →
      ∃ more, clusterLines? rest = some (body, closing, more)) :
    splitClusters before (line :: others) = line :: splitClusters (inLayout before line) others := by
  refine splitClusters_line fun body closing after hothers hcluster => ?_
  obtain ⟨more, hrest⟩ := hclosed body closing after (hothers ▸ hcluster.closed)
  obtain ⟨hlines, -⟩ := clusterLines?_eq_some_iff.1 hrest
  exact h body closing more hlines
    ⟨hcluster.inside, hcluster.opens, hcluster.stays, hlines ▸ hrest⟩

/-- Lines that open no cluster stay. -/
theorem splitClusters_pass {lines : List String} (h : ∀ line ∈ lines, opensCluster line = false)
    (before : Bool) (more : List String) :
    splitClusters before (lines ++ more) =
      lines ++ splitClusters (lines.foldl inLayout before) more := by
  induction lines generalizing before with
  | nil => rfl
  | cons line lines ih =>
    obtain ⟨hline, hlines⟩ := List.forall_mem_cons.1 h
    rw [List.cons_append, splitClusters_line, ih hlines]
    · rfl
    · intro body closing after _ hcluster
      cases hline.symm.trans hcluster.opens

/-- A cluster that does not bind both stays. -/
theorem splitClusters_plain (hinside : inLayout before opening = true)
    (hclosed : clusterLines? (body ++ closing :: after) = some (body, closing, after))
    (hmixed : isMixed body = false) :
    splitClusters before (opening :: (body ++ closing :: after)) =
      opening :: (body ++ closing :: splitClusters true after) := by
  have hopens : ∀ line ∈ body ++ [closing], opensCluster line = false := fun line hline =>
    (Bool.or_eq_false_iff.1 (not_isBarrier_of_clusterLines? hclosed line hline)).1
  have hparts : body ++ closing :: after = (body ++ [closing]) ++ after := by simp
  rw [splitClusters_line, hinside, hparts, splitClusters_pass hopens,
    foldl_inLayout (lines_of_clusterLines? hclosed).2]
  · simp
  · intro b c a hrest hcluster
    have hsame := hcluster.closed
    rw [← hrest, hclosed] at hsame
    obtain ⟨rfl, -⟩ := Prod.mk.inj (Option.some.inj hsame)
    exact hmixed

/-! ## A document in pieces -/

/-- The pieces of the lines behind a line that is in the layout panel or not. -/
inductive Cut : Bool → List Piece → Prop
  | nil {before : Bool} : Cut before []
  | line {before : Bool} {l : String} {ps : List Piece}
    (hplain : ∀ body closing after, ps.flatMap Piece.lines = body ++ closing :: after →
      PanelCluster before l body closing after → isMixed body = false)
    (hps : Cut (inLayout before l) ps) : Cut before (.line l :: ps)
  | cluster {before : Bool} {opening closing : String} {body : List String} {ps : List Piece}
    (hcluster : PanelCluster before opening body closing (ps.flatMap Piece.lines))
    (hmixed : isMixed body = true) (hps : Cut true ps) :
    Cut before (.cluster opening body closing :: ps)

theorem exists_cut (before : Bool) (lines : List String) :
    ∃ ps, ps.flatMap Piece.lines = lines ∧ Cut before ps := by
  induction hlength : lines.length using Nat.strongRecOn generalizing before lines with
  | ind n ih =>
    subst hlength
    rcases lines with _ | ⟨line, rest⟩
    · exact ⟨[], rfl, .nil⟩
    by_cases hmixed : ∃ body closing after, rest = body ++ closing :: after ∧
        PanelCluster before line body closing after ∧ isMixed body = true
    · obtain ⟨body, closing, after, rfl, hcluster, hmixed⟩ := hmixed
      have hlt : after.length < (line :: (body ++ closing :: after)).length := by
        simp only [List.length_cons, List.length_append]
        omega
      obtain ⟨ps, rfl, hps⟩ := ih _ hlt true after rfl
      refine ⟨.cluster line body closing :: ps, ?_, .cluster hcluster hmixed hps⟩
      simp [Piece.lines]
    · obtain ⟨ps, rfl, hps⟩ := ih _ (Nat.lt_succ_self _) (inLayout before line) rest rfl
      refine ⟨.line line :: ps, rfl, .line (fun body closing after hrest hcluster => ?_) hps⟩
      exact Bool.eq_false_iff.2 fun hbinds =>
        hmixed ⟨body, closing, after, hrest, hcluster, hbinds⟩

/-- What a run of the split leaves of the pieces. -/
theorem splitClusters_of_cut (h : Cut before ps) :
    splitClusters before (ps.flatMap Piece.lines) = ps.flatMap Piece.split := by
  induction h with
  | nil => exact splitClusters_nil _
  | line hplain _ ih =>
    rw [List.flatMap_cons, List.flatMap_cons, ← ih]
    exact splitClusters_line hplain
  | cluster hcluster hmixed _ ih =>
    rw [List.flatMap_cons, List.flatMap_cons, ← ih, ← splitClusters_cluster hcluster hmixed]
    simp [Piece.lines]

/-! ## The split again -/

/-- A cluster that is closed behind the split was so in front of it, with the same lines. -/
theorem clusterLines?_split (h : Cut before ps)
    (hclosed : clusterLines? (ps.flatMap Piece.split) = some (body, closing, after)) :
    ∃ rest, clusterLines? (ps.flatMap Piece.lines) = some (body, closing, rest) := by
  induction h generalizing body with
  | nil => cases hclosed
  | @line _ l ps _ _ ih =>
    have hstep (rest : List String) : clusterLines? (l :: rest) = _ := clusterLines?.eq_2 l rest
    have hsplit : (Piece.line l :: ps).flatMap Piece.split = l :: ps.flatMap Piece.split := rfl
    have hlines : (Piece.line l :: ps).flatMap Piece.lines = l :: ps.flatMap Piece.lines := rfl
    rw [hsplit, hstep] at hclosed
    rw [hlines, hstep]
    split
    · rename_i hbarrier
      rw [if_pos hbarrier] at hclosed
      cases hclosed
    rename_i hbarrier
    rw [if_neg hbarrier] at hclosed
    split
    · rename_i hclose
      rw [if_pos hclose] at hclosed
      cases hclosed
      exact ⟨_, rfl⟩
    · rename_i hclose
      rw [if_neg hclose] at hclosed
      obtain ⟨⟨b, c, a⟩, hb, he⟩ := Option.map_eq_some_iff.1 hclosed
      cases he
      obtain ⟨rest, hrest⟩ := ih hb
      exact ⟨rest, by rw [hrest]; rfl⟩
  | cluster hcluster _ _ _ =>
    rw [List.flatMap_cons, Piece.split, List.cons_append, List.cons_append, clusterLines?,
      if_pos (by rw [hcluster.opens, Bool.true_or])] at hclosed
    cases hclosed

theorem not_isMixed_pods (body : List String) :
    isMixed (body.filter fun l => !isStage l) = false := by
  simp [isMixed]

theorem not_isMixed_stages (body : List String) : isMixed (body.filter isStage) = false := by
  simp only [isMixed, Bool.and_eq_false_iff, List.any_eq_false, List.mem_filter]
  refine .inr fun line hline hpod => ?_
  have hstage := hline.2
  simp only [isStage, isPod, beq_iff_eq] at hstage hpod
  cases hstage.symm.trans hpod

/-- Nothing is left to split behind the split. -/
theorem splitClusters_split (h : Cut before ps) :
    splitClusters before (ps.flatMap Piece.split) = ps.flatMap Piece.split := by
  induction h with
  | nil => exact splitClusters_nil _
  | @line before l ps hplain hps ih =>
    have hline := splitClusters_line_of hplain _ fun _ _ _ => clusterLines?_split hps
    rw [ih] at hline
    exact hline
  | @cluster before opening closing body ps hcluster hmixed hps ih =>
    have hclosed := clusterLines?_filter hcluster.closed
    have hpods := splitClusters_plain hcluster.inside
      (hclosed (fun l => !isStage l) (opening :: (body.filter isStage ++ closing ::
        ps.flatMap Piece.split))) (not_isMixed_pods body)
    have hstages := splitClusters_plain (inLayout_of_inside hcluster.inside)
      (hclosed isStage (ps.flatMap Piece.split)) (not_isMixed_stages body)
    rw [hstages, ih] at hpods
    simpa [Piece.split] using hpods

/-! ## Where clusters are split -/

/-- Other lines may follow the cluster. -/
theorem PanelCluster.followed (h : PanelCluster before opening body closing after)
    (more : List String) : PanelCluster before opening body closing more :=
  ⟨h.inside, h.opens, h.stays,
    clusterLines?_eq_some_iff.2 ⟨rfl, (clusterLines?_eq_some_iff.1 h.closed).2⟩⟩

/-- The layout panel is open behind the cluster. -/
theorem PanelCluster.foldl (h : PanelCluster before opening body closing after) :
    (opening :: (body ++ [closing])).foldl inLayout before = true := by
  rw [List.foldl_cons, h.inside, foldl_inLayout (lines_of_clusterLines? h.closed).2]

/-- A mixed cluster is a piece, wherever it stands. -/
theorem exists_piece_of_mixed (h : Cut before ps) {start : List String}
    (hlines : ps.flatMap Piece.lines = start ++ opening :: (body ++ closing :: after))
    (hcluster : PanelCluster (start.foldl inLayout before) opening body closing after)
    (hmixed : isMixed body = true) :
    ∃ front back, ps = front ++ .cluster opening body closing :: back ∧
      front.flatMap Piece.lines = start ∧ back.flatMap Piece.lines = after := by
  induction h generalizing start with
  | nil => simp at hlines
  | @line before l ps hplain hps ih =>
    rcases start with _ | ⟨first, start⟩
    · obtain ⟨rfl, hrest⟩ := List.cons.inj hlines
      cases hmixed.symm.trans (hplain body closing after hrest hcluster)
    · obtain ⟨rfl, hrest⟩ := List.cons.inj hlines
      obtain ⟨front, back, rfl, rfl, hback⟩ := ih hrest hcluster
      exact ⟨.line l :: front, back, rfl, rfl, hback⟩
  | @cluster before o c b ps hfirst hbinds hps ih =>
    rw [List.flatMap_cons, Piece.lines, List.cons_append] at hlines
    rcases start with _ | ⟨first, start⟩
    · obtain ⟨rfl, hrest⟩ := List.cons.inj hlines
      have hsame := hfirst.closed
      rw [List.append_cons, hrest, hcluster.closed] at hsame
      cases hsame
      exact ⟨[], ps, rfl, rfl, rfl⟩
    obtain ⟨rfl, hrest⟩ := List.cons.inj hlines
    -- It starts behind the first cluster: no line of a cluster opens another one.
    obtain ⟨more, rfl, hback⟩ : ∃ more, start = b ++ [c] ++ more ∧
        ps.flatMap Piece.lines = more ++ opening :: (body ++ closing :: after) := by
      rcases List.append_eq_append_iff.1 hrest with hbehind | ⟨more, hbody, hmore⟩
      · exact hbehind
      rcases more with _ | ⟨line, more⟩
      · exact ⟨[], by simpa using hbody.symm, hmore.symm⟩
      · obtain ⟨rfl, -⟩ := List.cons.inj hmore
        have hopen := not_isBarrier_of_clusterLines? hfirst.closed opening
          (hbody ▸ List.mem_append_right _ List.mem_cons_self)
        cases hcluster.opens.symm.trans (Bool.or_eq_false_iff.1 hopen).1
    rw [← List.cons_append, List.foldl_append, hfirst.foldl] at hcluster
    obtain ⟨front, back, rfl, rfl, rfl⟩ := ih hback hcluster
    exact ⟨.cluster o b c :: front, back, rfl, by simp [Piece.lines], rfl⟩

/-- And no other cluster is. -/
theorem mixed_of_piece {front back : List Piece}
    (h : Cut before (front ++ .cluster opening body closing :: back)) :
    PanelCluster ((front.flatMap Piece.lines).foldl inLayout before) opening body closing
      (back.flatMap Piece.lines) ∧ isMixed body = true := by
  induction front generalizing before with
  | nil =>
    cases h with
    | cluster hcluster hmixed _ => exact ⟨hcluster, hmixed⟩
  | cons p front ih =>
    cases h with
    | line _ hps => exact ih hps
    | cluster hcluster _ hps =>
      rw [List.flatMap_cons, List.foldl_append]
      exact hcluster.foldl ▸ ih hps

/-! ## Once is enough -/

def Piece.isCluster : Piece → Bool
  | .line _ => false
  | .cluster _ _ _ => true

theorem length_split (ps : List Piece) :
    (ps.flatMap Piece.split).length =
      (ps.flatMap Piece.lines).length + 2 * ps.countP Piece.isCluster := by
  induction ps with
  | nil => rfl
  | cons p ps ih =>
    rw [List.flatMap_cons, List.flatMap_cons, List.length_append, List.length_append, ih]
    cases p with
    | line l =>
      rw [List.countP_cons_of_neg (by simp [Piece.isCluster])]
      simp only [Piece.lines, Piece.split, List.length_singleton]
      omega
    | cluster opening body closing =>
      have hbody := List.length_eq_length_filter_add (l := body) isStage
      rw [List.countP_cons_of_pos rfl]
      simp only [Piece.lines, Piece.split, List.length_cons, List.length_append,
        List.length_nil]
      omega

/-- The split is made once, and what it leaves holds no cluster that binds both stage and pod.
The clusters that do are split where they stand, and all other lines stay. -/
theorem mixed_clusters_are_split_once (lines : List String) :
    splitMixed (splitMixed lines) = splitMixed lines ∧
      (∀ start opening body closing after,
        splitMixed lines = start ++ opening :: (body ++ closing :: after) →
        PanelCluster (start.foldl inLayout false) opening body closing after →
        isMixed body = false) ∧
      ∃ pieces : List Piece, pieces.flatMap Piece.lines = lines ∧
        pieces.flatMap Piece.split = splitMixed lines ∧
        ∀ start opening body closing after,
          lines = start ++ opening :: (body ++ closing :: after) →
          ((PanelCluster (start.foldl inLayout false) opening body closing after ∧
              isMixed body = true) ↔
            ∃ front back, pieces = front ++ .cluster opening body closing :: back ∧
              front.flatMap Piece.lines = start ∧ back.flatMap Piece.lines = after) := by
  obtain ⟨pieces, rfl, hcut⟩ := exists_cut false lines
  have hsplit : splitMixed (pieces.flatMap Piece.lines) = pieces.flatMap Piece.split :=
    splitClusters_of_cut hcut
  have htwice : splitMixed (pieces.flatMap Piece.split) = pieces.flatMap Piece.split :=
    splitClusters_split hcut
  rw [hsplit]
  refine ⟨htwice, fun start opening body closing after hlines hcluster => ?_,
    pieces, rfl, rfl, fun start opening body closing after hlines =>
      ⟨fun h => exists_piece_of_mixed hcut hlines h.1 h.2, ?_⟩⟩
  rotate_left
  · rintro ⟨front, back, rfl, rfl, rfl⟩
    exact mixed_of_piece hcut
  -- In pieces of its own, what is left holds no cluster: a split would have made it longer.
  obtain ⟨ps, hps, hcutAgain⟩ := exists_cut false (pieces.flatMap Piece.split)
  have hsame : splitMixed (ps.flatMap Piece.lines) = ps.flatMap Piece.split :=
    splitClusters_of_cut hcutAgain
  rw [hps, htwice] at hsame
  have hlength := length_split ps
  rw [← hsame, hps] at hlength
  have hnone : ps.countP Piece.isCluster = 0 := by omega
  refine Bool.eq_false_iff.2 fun hmixed => ?_
  obtain ⟨front, back, rfl, -⟩ :=
    exists_piece_of_mixed hcutAgain (hps.trans hlines) hcluster hmixed
  exact List.countP_eq_zero.1 hnone _ (List.mem_append_right front List.mem_cons_self) rfl

/-- A field for the stage and one for the pod. -/
def boxBody : List String :=
  ["<tooldrawer-field path='stage.a' />", "<tooldrawer-field path='pod.b' />"]

/-- A layout panel of one cluster. -/
def boxOf (opening : String) (body : List String) : List String :=
  ["<bob-panel id='layout'>"] ++ opening :: (body ++ "</tooldrawer-cluster>" :: ["</bob-panel>"])

theorem a_box_is_split_once :
    (∃ front back : List Piece, front.flatMap Piece.split ++ ("<tooldrawer-cluster>" ::
        (boxBody.filter (fun l => !isStage l) ++ ["</tooldrawer-cluster>"]) ++
      "<tooldrawer-cluster>" :: (boxBody.filter isStage ++ ["</tooldrawer-cluster>"])) ++
        back.flatMap Piece.split = splitMixed (boxOf "<tooldrawer-cluster>" boxBody) ∧
      front.flatMap Piece.lines = ["<bob-panel id='layout'>"] ∧
      back.flatMap Piece.lines = ["</bob-panel>"]) ∧
    isMixed (boxBody.filter fun l => !isStage l) = false := by
  obtain ⟨-, hplain, pieces, -, hsplit, hpieces⟩ :=
    mixed_clusters_are_split_once (boxOf "<tooldrawer-cluster>" boxBody)
  have hbox : PanelCluster (["<bob-panel id='layout'>"].foldl inLayout false)
      "<tooldrawer-cluster>" boxBody "</tooldrawer-cluster>" ["</bob-panel>"] :=
    ⟨by decide +kernel, by decide +kernel, by decide +kernel, by decide +kernel⟩
  have hpods : PanelCluster (["<bob-panel id='layout'>"].foldl inLayout false)
      "<tooldrawer-cluster>" (boxBody.filter fun l => !isStage l) "</tooldrawer-cluster>"
      ("<tooldrawer-cluster>" :: (boxBody.filter isStage ++
        "</tooldrawer-cluster>" :: ["</bob-panel>"])) :=
    ⟨by decide +kernel, by decide +kernel, by decide +kernel, by decide +kernel⟩
  obtain ⟨front, back, rfl, hfront, hback⟩ :=
    (hpieces _ _ _ _ _ rfl).1 ⟨hbox, by decide +kernel⟩
  refine ⟨⟨front, back, ?_, hfront, hback⟩, hplain _ _ _ _ _ (by decide +kernel) hpods⟩
  rw [← hsplit]
  simp [Piece.split]

/-- A cluster behind another one on its opening line is not split, whatever it binds. -/
theorem a_mixed_cluster_can_stay :
    ¬ ∀ lines start opening body closing after,
      splitMixed lines = start ++ opening :: (body ++ closing :: after) →
      inLayout (start.foldl inLayout false) opening = true → opensCluster opening = true →
      clusterLines? (body ++ closing :: after) = some (body, closing, after) →
      isMixed body = false := by
  intro h
  have hplain := h
    (boxOf "<tooldrawer-cluster></tooldrawer-cluster><tooldrawer-cluster>" boxBody)
    ["<bob-panel id='layout'>"] "<tooldrawer-cluster></tooldrawer-cluster><tooldrawer-cluster>"
    boxBody "</tooldrawer-cluster>" ["</bob-panel>"] (by decide +kernel) (by decide +kernel)
    (by decide +kernel) (by decide +kernel)
  revert hplain
  decide +kernel

end WidgetSchema.Generated
