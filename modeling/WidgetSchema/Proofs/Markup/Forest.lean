-- Clusters within clusters. A forest of clusters with text between them is read as it is
-- written: the quotes of an attribute cover whatever stands in its value, and the reader counts
-- the clusters that it passes, so each one ends at its own closing tag. A block takes the place
-- of each cluster, and nothing else changes.
import WidgetSchema.Markup.Cluster
import WidgetSchema.Proofs.Markup.Document
namespace WidgetSchema.Markup

open Text

/-! ## Forests -/

/-- Clusters side by side, each around a forest of its own, with text in front of every one of
them and behind the last. -/
inductive Forest where
  | text (cs : List Char)
  | cluster (before : List Char) (attributes : List QuotedAttribute) (body after : Forest)

/-- The value under a name, which is that of the last attribute with the name. Without such an
attribute it is empty. -/
def valueOf (name : String) (attributes : List QuotedAttribute) : String :=
  ((attributes.reverse.find? fun a => a.name == name).map (·.value)).getD ""

/-- The first attribute of a cluster that is refused. -/
def fault? (attributes : List QuotedAttribute) : Option String :=
  ["gap", "space-after", "spaceAfter"].find? fun name => valueOf name attributes ≠ ""

namespace Forest

def print : Forest → List Char
  | text cs => cs
  | cluster before attributes body after =>
    before ++ (clusterOpen ++ (attributes.flatMap QuotedAttribute.print ++
      '>' :: (body.print ++ (clusterClose ++ after.print))))

/-- The attributes of the clusters in document order, those of a cluster in front of those of the
clusters in it. -/
def heads : Forest → List (List QuotedAttribute)
  | text _ => []
  | cluster _ attributes body after => attributes :: (body.heads ++ after.heads)

/-- The opening tag of the block that stands for a cluster. -/
def wrapper (attributes : List QuotedAttribute) : List Char :=
  "<div class=\"tdmenucontent__cluster\"".toList ++
    ((if valueOf "show-if" attributes = "" then []
      else " data-bob-showif=\"".toList ++ (valueOf "show-if" attributes).toList ++ ['"']) ++
      ['>'])

/-- The forest with a block in place of every cluster. -/
def blocks : Forest → List Char
  | text cs => cs
  | cluster before attributes body after =>
    before ++ (wrapper attributes ++ (body.blocks ++ ("</div>".toList ++ after.blocks)))

/-- A text in which no tag of a cluster stands, in whatever case. -/
def IsUnmarked (cs : List Char) : Prop :=
  ¬ clusterOpen <:+: cs.map Char.toLower ∧ ¬ clusterClose <:+: cs.map Char.toLower

def IsSound : Forest → Prop
  | text cs => IsUnmarked cs
  | cluster before attributes body after =>
    IsUnmarked before ∧ (∀ a ∈ attributes, a.IsReadable) ∧ body.IsSound ∧ after.IsSound

end Forest

/-! ## One step of the readers -/

/-- One step to the closing tag of a cluster. -/
theorem clusterBody?_cons (depth : Nat) (c : Char) (rest : List Char) :
    clusterBody? depth (c :: rest) =
      match dropFolded Char.toLower clusterClose (c :: rest) with
      | some after =>
        match depth with
        | 0 => some ([], after)
        | depth + 1 => (clusterBody? depth after).map fun p =>
            ((c :: rest).take clusterClose.length ++ p.1, p.2)
      | none =>
        match dropFolded Char.toLower clusterOpen (c :: rest) with
        | some name => (cutTag .outside name).bind fun tag =>
            (clusterBody? (depth + 1) tag.2).map fun p =>
              ((c :: rest).take clusterOpen.length ++ tag.1 ++ '>' :: p.1, p.2)
        | none => (clusterBody? depth rest).map fun p => (c :: p.1, p.2) := by
  rw [clusterBody?]
  split
  · rename_i after hclose
    cases depth <;> simp only [hclose]
  · rename_i hclose
    simp only [hclose]
    split
    · rename_i name hopen
      simp only [hopen]
      split
      · rename_i htag
        simp only [htag, Option.bind_none]
      · rename_i htag
        simp only [htag, Option.bind_some]
    · rename_i hopen
      simp only [hopen]

theorem clusterStart_of_body {name attrs after body rest : List Char}
    (hname : endsName name = true) (htag : cutTag .outside name = some (attrs, after))
    (hbody : clusterBody? 0 after = some (body, rest)) :
    clusterStart name = .cluster ⟨attrs, body, rest⟩ := by
  simp [clusterStart, hname, htag, hbody]

theorem expandClusters_cluster {cs before word name : List Char} {c : ClusterTag}
    (hcut : cutFolded Char.toLower clusterOpen cs = some (before, word, name))
    (hstart : clusterStart name = .cluster c) :
    expandClusters cs =
      match spacing? (Attributes.ofChars c.attrs) with
      | some name => .error name
      | none =>
        match expandClusters c.body with
        | .error e => .error e
        | .ok body => (expandClusters c.rest).map fun tail =>
            before ++ clusterDiv (Attributes.ofChars c.attrs) ++ body ++ "</div>".toList ++ tail := by
  rw [expandClusters]
  split
  · rename_i hnone
    cases hcut.symm.trans hnone
  · rename_i hsome
    cases hcut.symm.trans hsome
    dsimp only
    split
    · rename_i hloose
      cases hstart.symm.trans hloose
    · rename_i hcluster
      cases hstart.symm.trans hcluster
      rfl

/-! ## Bodies end where they were written to end -/

namespace Forest

theorem mark_of_isUnmarked {cs : List Char} (h : IsUnmarked cs) :
    cutFolded Char.toLower clusterOpen cs = none ∧
      cutFolded Char.toLower clusterClose cs = none :=
  ⟨(cutFolded_eq_none_iff (by decide)).2 h.1, (cutFolded_eq_none_iff (by decide)).2 h.2⟩

/-- A text without marks is passed over up to a bracket that may start one. -/
theorem clusterBody?_text {cs : List Char} (h : IsUnmarked cs) (depth : Nat) (more : List Char) :
    clusterBody? depth (cs ++ '<' :: more) =
      (clusterBody? depth ('<' :: more)).map fun p => (cs ++ p.1, p.2) := by
  obtain ⟨hopen, hclose⟩ := mark_of_isUnmarked h
  clear h
  induction cs with
  | nil => simp
  | cons c cs ih =>
    obtain ⟨hopenHere, hopenLater⟩ := cutFolded_cons_eq_none_iff.1 hopen
    obtain ⟨hcloseHere, hcloseLater⟩ := cutFolded_cons_eq_none_iff.1 hclose
    have hbracket : '<'.toLower ∉ clusterClose.tail ∧ '<'.toLower ∉ clusterOpen.tail := by decide
    rw [List.cons_append, clusterBody?_cons, ← List.cons_append, dropFolded_cons_across hbracket.1,
      dropFolded_cons_across hbracket.2, hcloseHere, hopenHere]
    simp only [Option.map_none]
    rw [ih hopenLater hcloseLater, Option.map_map]
    rfl

/-- At a closing tag the body ends, or a cluster in it does. -/
theorem clusterBody?_close (depth : Nat) (after : List Char) :
    clusterBody? depth (clusterClose ++ after) =
      match depth with
      | 0 => some ([], after)
      | depth + 1 => (clusterBody? depth after).map fun p => (clusterClose ++ p.1, p.2) := by
  have hhere : dropFolded Char.toLower clusterClose (clusterClose ++ after) = some after :=
    dropFolded_append_self (by decide) after
  have htake : (clusterClose ++ after).take clusterClose.length = clusterClose := List.take_left
  rw [show clusterClose ++ after = '<' :: (clusterClose.tail ++ after) from rfl] at hhere htake ⊢
  rw [clusterBody?_cons, hhere, htake]

/-- At an opening tag a cluster in the body starts. -/
theorem clusterBody?_open {attributes : List Char} (h : Passes attributes) (depth : Nat)
    (after : List Char) :
    clusterBody? depth (clusterOpen ++ (attributes ++ '>' :: after)) =
      (clusterBody? (depth + 1) after).map fun p =>
        (clusterOpen ++ (attributes ++ '>' :: p.1), p.2) := by
  have hhere : dropFolded Char.toLower clusterOpen (clusterOpen ++ (attributes ++ '>' :: after)) =
      some (attributes ++ '>' :: after) := dropFolded_append_self (by decide) _
  have htake : (clusterOpen ++ (attributes ++ '>' :: after)).take clusterOpen.length =
      clusterOpen := List.take_left
  have hclose : dropFolded Char.toLower clusterClose
      (clusterOpen ++ (attributes ++ '>' :: after)) = none := rfl
  have htag : cutTag .outside (attributes ++ '>' :: after) = some (attributes, after) := by
    rw [h]
    simp [cutTag]
  rw [show clusterOpen ++ (attributes ++ '>' :: after) =
    '<' :: (clusterOpen.tail ++ (attributes ++ '>' :: after)) from rfl] at hhere htake hclose ⊢
  rw [clusterBody?_cons, hclose, hhere, htake]
  simp only [htag, Option.bind_some, List.append_assoc]

/-- A forest is passed over, whatever the number of clusters around it, when a closing tag
follows. -/
theorem clusterBody?_print {f : Forest} (h : f.IsSound) (depth : Nat) (more : List Char) :
    clusterBody? depth (f.print ++ (clusterClose ++ more)) =
      (clusterBody? depth (clusterClose ++ more)).map fun p => (f.print ++ p.1, p.2) := by
  induction f generalizing depth more with
  | text cs => exact clusterBody?_text h depth _
  | cluster before attributes body after ihBody ihAfter =>
    obtain ⟨hbefore, hattributes, hbody, hafter⟩ := h
    have hopen := clusterBody?_open (passes_attributes hattributes) depth
      (body.print ++ (clusterClose ++ (after.print ++ (clusterClose ++ more))))
    have htext := clusterBody?_text hbefore depth (clusterOpen.tail ++
      (attributes.flatMap QuotedAttribute.print ++
        '>' :: (body.print ++ (clusterClose ++ (after.print ++ (clusterClose ++ more))))))
    rw [← List.cons_append, show '<' :: clusterOpen.tail = clusterOpen from rfl] at htext
    simp only [print, List.append_assoc, List.cons_append]
    rw [htext, hopen, ihBody hbody, clusterBody?_close]
    simp only
    rw [ihAfter hafter]
    simp only [Option.map_map, Function.comp_def]

/-- So the body of a cluster is the forest that was written in it. -/
theorem clusterStart_print {attributes : List QuotedAttribute} {body : Forest}
    (hattributes : ∀ a ∈ attributes, a.IsReadable) (hbody : body.IsSound) (after : List Char) :
    clusterStart (attributes.flatMap QuotedAttribute.print ++
        '>' :: (body.print ++ (clusterClose ++ after))) =
      .cluster ⟨attributes.flatMap QuotedAttribute.print, body.print, after⟩ := by
  have htag := passes_attributes hattributes ('>' :: (body.print ++ (clusterClose ++ after)))
  have hbody := clusterBody?_print hbody 0 after
  rw [clusterBody?_close] at hbody
  simp only [cutTag, decide_true, Bool.and_self, if_true, Option.map_some, List.append_nil]
    at htag hbody
  refine clusterStart_of_body ?_ htag hbody
  cases attributes <;> rfl

/-! ## Attributes are read back -/

theorem get?_prints {attributes : List QuotedAttribute} (h : ∀ a ∈ attributes, a.IsReadable)
    (name : String) :
    (Attributes.ofChars (attributes.flatMap QuotedAttribute.print)).get? name =
      if valueOf name attributes = "" then none else some (valueOf name attributes) := by
  have hpairs := pairsIn_prints h []
  rw [List.append_nil, Attributes.pairsIn, List.append_nil] at hpairs
  rw [Attributes.ofChars, hpairs, Attributes.get?, Attributes.raw?, ← List.map_reverse,
    List.find?_map, valueOf, Option.map_map]
  rcases hfind : attributes.reverse.find? fun a => a.name == name with _ | a
  · simp [Function.comp_def, hfind]
  · by_cases hvalue : a.value = "" <;> simp [Function.comp_def, hfind, hvalue]

theorem spacing?_prints {attributes : List QuotedAttribute} (h : ∀ a ∈ attributes, a.IsReadable) :
    spacing? (Attributes.ofChars (attributes.flatMap QuotedAttribute.print)) =
      fault? attributes := by
  rw [spacing?, fault?, fixedSpacing]
  congr 1
  funext name
  rw [get?_prints h]
  split <;> simp [*]

theorem clusterDiv_prints {attributes : List QuotedAttribute}
    (h : ∀ a ∈ attributes, a.IsReadable) :
    clusterDiv (Attributes.ofChars (attributes.flatMap QuotedAttribute.print)) =
      wrapper attributes := by
  have hread := get?_prints h "show-if"
  unfold clusterDiv wrapper
  by_cases hvalue : valueOf "show-if" attributes = ""
  · rw [if_pos hvalue] at hread
    simp only [hread, if_pos hvalue, List.append_assoc]
  · rw [if_neg hvalue] at hread
    simp only [hread, if_neg hvalue, List.append_assoc]

/-! ## Blocks take the place of clusters -/

/-- Every cluster of a forest is written as a block around the blocks in it, and the text stays.
The first cluster in document order that has spacing of its own is refused. -/
theorem a_forest_is_written_as_blocks (f : Forest) (h : f.IsSound) :
    expandClusters f.print =
      match f.heads.findSome? fault? with
      | some name => .error name
      | none => .ok f.blocks := by
  induction f with
  | text cs =>
    rw [expandClusters]
    split
    · rfl
    · rename_i hsome
      cases (mark_of_isUnmarked h).1.symm.trans hsome
  | cluster before attributes body after ihBody ihAfter =>
    obtain ⟨hbefore, hattributes, hbody, hafter⟩ := h
    have hcut : cutFolded Char.toLower clusterOpen (cluster before attributes body after).print =
        some (before, clusterOpen, attributes.flatMap QuotedAttribute.print ++
          '>' :: (body.print ++ (clusterClose ++ after.print))) :=
      cutFolded_behind (mark_of_isUnmarked hbefore).1 (by decide) (by decide) (by decide) _
    rw [expandClusters_cluster hcut (clusterStart_print hattributes hbody after.print),
      spacing?_prints hattributes, clusterDiv_prints hattributes, ihBody hbody, ihAfter hafter,
      heads, List.findSome?_cons, List.findSome?_append]
    rcases fault? attributes with _ | name
    · rcases body.heads.findSome? fault? with _ | name
      · rcases after.heads.findSome? fault? with _ | name
        · simp [Except.map, blocks]
        · rfl
      · rfl
    · rfl

/-- A cluster with brackets and a closing tag in a value, around one with a gap. -/
def nestedForest (gap : String) : Forest :=
  .cluster "<p>a > b</p>".toList
    [⟨"label", .single, "> </tooldrawer-cluster>"⟩, ⟨"show-if", .double, "mode == 'a'"⟩]
    (.cluster " ".toList [⟨"show-if", .single, ""⟩, ⟨"gap", .double, gap⟩] (.text "x".toList)
      (.cluster "y".toList [] (.text []) (.text "</div>".toList)))
    (.cluster [] [⟨"space-after", .double, gap⟩] (.text []) (.text "end".toList))

theorem a_nested_forest_is_written_as_blocks :
    (nestedForest "").IsSound ∧
      expandClusters (nestedForest "").print = .ok (nestedForest "").blocks ∧
      (nestedForest "2rem").IsSound ∧
      expandClusters (nestedForest "2rem").print = .error "gap" := by
  have hplain : (nestedForest "").IsSound := by
    simp only [nestedForest, IsSound, IsUnmarked]
    decide +kernel
  have hspaced : (nestedForest "2rem").IsSound := by
    simp only [nestedForest, IsSound, IsUnmarked]
    decide +kernel
  have hblocks := a_forest_is_written_as_blocks (nestedForest "") hplain
  have hrefused := a_forest_is_written_as_blocks (nestedForest "2rem") hspaced
  rw [show (nestedForest "").heads.findSome? fault? = none by decide +kernel] at hblocks
  rw [show (nestedForest "2rem").heads.findSome? fault? = some "gap" by decide +kernel]
    at hrefused
  exact ⟨hplain, hblocks, hspaced, hrefused⟩

end Forest

end WidgetSchema.Markup
