-- The conditions that fields and clusters carry. Both are written as blocks whose attributes
-- stand in double quotes, the condition as the last of them and just as it was read. It is read
-- back unless it holds a double quote itself: then its attribute ends there, and every other
-- value in the tag is too short to be the condition.
import WidgetSchema.Fragment.Render
import WidgetSchema.Proofs.Checked
import WidgetSchema.Proofs.Generated.Lines
import WidgetSchema.Proofs.Markup.Forest
import WidgetSchema.Proofs.Text.Split
import WidgetSchema.Proofs.Text.Trim
namespace WidgetSchema

open Text Markup

namespace Markup

variable {attributes : List QuotedAttribute} {s : String}

/-! ## Opening tags of blocks -/

/-- The opening tag of a block up to its last attribute. -/
def blockHead (attributes : List QuotedAttribute) : List Char :=
  "<div".toList ++ attributes.flatMap QuotedAttribute.print

/-- The condition that the tag at the start of a text carries. -/
def carried? (cs : List Char) : Option String :=
  (cutTag .outside cs).bind fun p => (Attributes.ofChars p.1).get? "data-bob-showif"

def conditionAttribute (s : String) : QuotedAttribute := ⟨"data-bob-showif", .double, s⟩

theorem isSound_double {name value : String} (hne : name ≠ "")
    (hname : name.toList.all (fun c => isAsciiAlphanumeric c || c == '_' || c == '-') = true)
    (hvalue : '"' ∉ value.toList) : QuotedAttribute.IsSound ⟨name, .double, value⟩ := by
  refine ⟨hne, fun c hc => ?_, hvalue⟩
  have hchar := List.all_eq_true.1 hname c hc
  simp only [Bool.or_eq_true, beq_iff_eq, or_assoc] at hchar
  exact hchar

theorem isSound_conditionAttribute (h : '"' ∉ s.toList) : (conditionAttribute s).IsSound :=
  isSound_double (by decide) (by decide) h

/-- No attribute is read off the name of a block: what follows is a name, no value. -/
theorem pairsIn_blockName {c : Char} (hblank : isBlank c = false) (hequals : c ≠ '=')
    (more : List Char) :
    Attributes.pairsIn ("<div".toList ++ ' ' :: c :: more) =
      Attributes.pairsIn (' ' :: c :: more) := by
  have hnone : Attributes.assigned? (' ' :: c :: more) = none := by
    unfold Attributes.assigned?
    rw [List.dropWhile_cons_of_pos (by decide), List.dropWhile_cons_of_neg (by simp [hblank])]
    split
    · rename_i heq
      exact absurd (List.cons.inj heq).1 hequals
    · rfl
  have htail : ("iv".toList ++ ' ' :: c :: more).dropWhile Attributes.isNameChar =
      ' ' :: c :: more := by
    rw [List.dropWhile_append_of_pos (List.all_eq_true.1 (by decide)),
      List.dropWhile_cons_of_neg (by decide)]
  have hword : "<div".toList ++ ' ' :: c :: more =
      '<' :: 'd' :: ("iv".toList ++ ' ' :: c :: more) := rfl
  rw [hword, pairsIn_skip (by decide), Attributes.pairsIn, if_pos (by decide)]
  dsimp only
  rw [htail]
  split
  · rename_i hsome
    cases hnone.symm.trans hsome
  · rfl

theorem pairsIn_blockHead (hne : attributes ≠ []) (h : ∀ a ∈ attributes, a.IsSound)
    (more : List Char) :
    Attributes.pairsIn (blockHead attributes ++ more) =
      (attributes.map fun a => (a.name, a.value)) ++ Attributes.pairsIn more := by
  obtain ⟨a, rest, rfl⟩ := List.exists_cons_of_ne_nil hne
  have ha := h a List.mem_cons_self
  obtain ⟨c, cs, hname⟩ := List.exists_cons_of_ne_nil (mt String.toList_eq_nil_iff.1 ha.nonempty)
  obtain ⟨hblank, hequals⟩ : isBlank c = false ∧ c ≠ '=' := by
    rcases ha.name c (hname ▸ List.mem_cons_self) with hletter | rfl | rfl
    · refine ⟨isBlank_of_isAsciiAlphanumeric hletter, ?_⟩
      rintro rfl
      revert hletter
      decide
    · decide
    · decide
  rw [← pairsIn_prints fun a ha => (h a ha).isReadable, blockHead, List.flatMap_cons, QuotedAttribute.print, hname]
  simp only [List.append_assoc, List.cons_append]
  exact pairsIn_blockName hblank hequals _

theorem passes_blockHead (h : ∀ a ∈ attributes, a.IsSound) : Passes (blockHead attributes) := by
  have hall : "<div".toList.all (fun c => c ≠ '"' ∧ c ≠ '\'' ∧ c ≠ '>') = true := by decide
  have hword : ∀ c ∈ "<div".toList, c ≠ '"' ∧ c ≠ '\'' ∧ c ≠ '>' :=
    fun c hc => of_decide_eq_true (List.all_eq_true.1 hall c hc)
  exact (passes_of_inert hword).append (passes_attributes fun a ha => (h a ha).isReadable)

/-! ## The condition of a block -/

theorem raw?_append_cons (before after : List (String × String)) (name value : String) :
    Attributes.raw? ⟨before ++ (name, value) :: after⟩ name =
      some ((Attributes.raw? ⟨after⟩ name).getD value) := by
  simp only [Attributes.raw?, List.reverse_append, List.reverse_cons, List.find?_append]
  rcases hfind : List.find? (fun p => p.1 == name) after.reverse with _ | p
  · simp [hfind]
  · simp [hfind]

/-- What a tag carries whose last known attribute is a condition: that condition, or a later
one. -/
theorem carried?_blockHead (h : ∀ a ∈ attributes, a.IsSound) (hs : '"' ∉ s.toList)
    (more : List Char) :
    carried? (blockHead (attributes ++ [conditionAttribute s]) ++ more) =
      (cutTag .outside more).bind fun p =>
        (some (((Attributes.ofChars p.1).raw? "data-bob-showif").getD s)).filter (· ≠ "") := by
  have hall : ∀ a ∈ attributes ++ [conditionAttribute s], a.IsSound := by
    intro a ha
    rcases List.mem_append.1 ha with ha | ha
    · exact h a ha
    · rw [List.mem_singleton.1 ha]
      exact isSound_conditionAttribute hs
  rw [carried?, passes_blockHead hall, Option.bind_map]
  rcases cutTag .outside more with _ | ⟨inside, rest⟩
  · rfl
  · have hpairs := pairsIn_blockHead (List.append_ne_nil_of_right_ne_nil _ (by simp)) hall inside
    have hraw := raw?_append_cons (attributes.map fun a => (a.name, a.value))
      (Attributes.pairsIn inside) "data-bob-showif" s
    simp only [Option.bind_some, Function.comp_apply, Attributes.get?, Attributes.ofChars, hpairs]
    rw [List.map_append, List.append_assoc]
    exact congrArg _ hraw

/-- A condition without double quotes is carried, whatever follows the tag. -/
theorem carried?_of_notMem (h : ∀ a ∈ attributes, a.IsSound) (hne : s ≠ "")
    (hs : '"' ∉ s.toList) (more : List Char) :
    carried? (blockHead (attributes ++ [conditionAttribute s]) ++ '>' :: more) = some s := by
  have hend : cutTag .outside ('>' :: more) = some ([], more) := rfl
  have hempty : Attributes.pairsIn [] = [] := by rw [Attributes.pairsIn]
  rw [carried?_blockHead h hs, hend, Option.bind_some, Attributes.ofChars, hempty]
  simp [Attributes.raw?, hne]

/-- A condition with a double quote is not. -/
theorem carried?_ne_of_mem (h : ∀ a ∈ attributes, a.IsSound) (hs : '"' ∈ s.toList) :
    carried? (blockHead (attributes ++ [conditionAttribute s]) ++ ['>']) ≠ some s := by
  obtain ⟨as, bs, hsplit, has⟩ := List.eq_append_cons_of_mem hs
  have hhead : blockHead (attributes ++ [conditionAttribute s]) ++ ['>'] =
      blockHead (attributes ++ [conditionAttribute (String.ofList as)]) ++ (bs ++ ['"', '>']) := by
    simp [blockHead, conditionAttribute, QuotedAttribute.print, Quote.char, hsplit]
  have hlength : s.toList.length = as.length + 1 + bs.length := by
    rw [hsplit]
    simp only [List.length_append, List.length_cons]
    omega
  rw [hhead, carried?_blockHead h (by simpa using has)]
  intro hcarried
  obtain ⟨⟨inside, rest⟩, hcut, hvalue⟩ := Option.bind_eq_some_iff.1 hcarried
  have hinside := length_cutTag hcut
  simp only [List.length_append, List.length_cons, List.length_nil] at hinside
  have hread := Option.some.inj (Option.filter_eq_some_iff.1 hvalue).1
  rcases hraw : (Attributes.ofChars inside).raw? "data-bob-showif" with _ | v
  · rw [hraw, Option.getD_none] at hread
    rw [← hread, String.toList_ofList] at hlength
    omega
  · rw [hraw, Option.getD_some] at hread
    obtain ⟨p, hp, rfl⟩ := Option.map_eq_some_iff.1 hraw
    have hmem := List.mem_reverse.1 (List.mem_of_find?_eq_some hp)
    have hshort := Attributes.length_of_mem_pairsIn hmem
    rw [hread] at hshort
    omega

/-! ## Clusters -/

/-- A cluster that is closed, at any depth, with the text that is written in front of the block
that stands for it. -/
inductive WrittenBehind : List Char → ClusterTag → List Char → Prop
  | here {cs before word name : List Char} {c : ClusterTag}
    (hcut : cutFolded Char.toLower clusterOpen cs = some (before, word, name))
    (hstart : clusterStart name = .cluster c) : WrittenBehind cs c before
  | loose {cs before word name kept rest front : List Char} {c : ClusterTag}
    (hcut : cutFolded Char.toLower clusterOpen cs = some (before, word, name))
    (hstart : clusterStart name = .loose kept rest) (hc : WrittenBehind rest c front) :
    WrittenBehind cs c (before ++ word ++ kept ++ front)
  | inside {cs before word name front : List Char} {around c : ClusterTag}
    (hcut : cutFolded Char.toLower clusterOpen cs = some (before, word, name))
    (hstart : clusterStart name = .cluster around) (hc : WrittenBehind around.body c front) :
    WrittenBehind cs c (before ++ clusterDiv (Attributes.ofChars around.attrs) ++ front)
  | behind {cs before word name body front : List Char} {first c : ClusterTag}
    (hcut : cutFolded Char.toLower clusterOpen cs = some (before, word, name))
    (hstart : clusterStart name = .cluster first)
    (hbody : expandClusters first.body = .ok body) (hc : WrittenBehind first.rest c front) :
    WrittenBehind cs c
      (before ++ clusterDiv (Attributes.ofChars first.attrs) ++ body ++ "</div>".toList ++ front)

theorem expandClusters_of_loose {cs before word name kept rest out : List Char}
    (hcut : cutFolded Char.toLower clusterOpen cs = some (before, word, name))
    (hstart : clusterStart name = .loose kept rest) (h : expandClusters cs = .ok out) :
    ∃ tail, expandClusters rest = .ok tail ∧ out = before ++ word ++ kept ++ tail := by
  rw [expandClusters] at h
  split at h
  · rename_i hnone
    cases hcut.symm.trans hnone
  · rename_i hsome
    cases hcut.symm.trans hsome
    dsimp only at h
    split at h
    · rename_i hloose
      cases hstart.symm.trans hloose
      obtain ⟨tail, htail, hout⟩ := map_eq_ok_iff.1 h
      exact ⟨tail, htail, hout.symm⟩
    · rename_i hcluster
      cases hstart.symm.trans hcluster

theorem expandClusters_of_cluster {cs before word name out : List Char} {c : ClusterTag}
    (hcut : cutFolded Char.toLower clusterOpen cs = some (before, word, name))
    (hstart : clusterStart name = .cluster c) (h : expandClusters cs = .ok out) :
    ∃ body tail, expandClusters c.body = .ok body ∧ expandClusters c.rest = .ok tail ∧
      out = before ++ clusterDiv (Attributes.ofChars c.attrs) ++ body ++ "</div>".toList ++
        tail := by
  rw [expandClusters_cluster hcut hstart] at h
  split at h
  · cases h
  · split at h
    · cases h
    · rename_i body hbody
      obtain ⟨tail, htail, hout⟩ := map_eq_ok_iff.1 h
      exact ⟨body, tail, hbody, htail, hout.symm⟩

theorem prefix_of_writtenBehind {cs front out : List Char} {c : ClusterTag}
    (hc : WrittenBehind cs c front) (h : expandClusters cs = .ok out) :
    front ++ clusterDiv (Attributes.ofChars c.attrs) <+: out := by
  induction hc generalizing out with
  | here hcut hstart =>
    obtain ⟨body, tail, -, -, rfl⟩ := expandClusters_of_cluster hcut hstart h
    exact ⟨body ++ "</div>".toList ++ tail, by simp⟩
  | loose hcut hstart hc ih =>
    obtain ⟨tail, hrest, rfl⟩ := expandClusters_of_loose hcut hstart h
    simpa only [List.append_assoc, List.prefix_append_right_inj] using ih hrest
  | inside hcut hstart hc ih =>
    obtain ⟨body, tail, hbody, -, rfl⟩ := expandClusters_of_cluster hcut hstart h
    have hprefix := (ih hbody).trans (List.prefix_append body ("</div>".toList ++ tail))
    simpa only [List.append_assoc, List.prefix_append_right_inj] using hprefix
  | behind hcut hstart hbody hc ih =>
    obtain ⟨body, tail, hbody', hrest, rfl⟩ := expandClusters_of_cluster hcut hstart h
    obtain rfl := Except.ok.inj (hbody.symm.trans hbody')
    simpa only [List.append_assoc, List.prefix_append_right_inj] using ih hrest

theorem clusterDiv_eq {attrs : Attributes} (h : attrs.get? "show-if" = some s) :
    clusterDiv attrs =
      blockHead ([⟨"class", .double, "tdmenucontent__cluster"⟩] ++ [conditionAttribute s]) ++
        ['>'] := by
  have hclass : "<div class=\"tdmenucontent__cluster\"".toList =
      "<div".toList ++ QuotedAttribute.print ⟨"class", .double, "tdmenucontent__cluster"⟩ := by
    decide +kernel
  have hcondition : " data-bob-showif=\"".toList =
      ' ' :: ("data-bob-showif".toList ++ ['=', '"']) := by
    decide +kernel
  unfold clusterDiv
  simp only [h]
  rw [hclass, hcondition, blockHead, List.flatMap_append, List.flatMap_singleton,
    List.flatMap_singleton, conditionAttribute]
  simp only [QuotedAttribute.print, Quote.char, List.append_assoc, List.cons_append,
    List.nil_append]

/-! ## Fields -/

theorem isGroupChar_of_fieldTag? {word name rest : List Char} {t : FieldTag}
    (h : fieldTag? word name = some (t, rest)) :
    ∀ g ∈ t.group, ∀ c ∈ g, isGroupChar c = true := by
  have hopening : ∀ o after, openingTag? name = some (o, after) →
      ∀ g ∈ o.group, ∀ c ∈ g, isGroupChar c = true := by
    intro o after ho
    unfold openingTag? at ho
    split at ho
    · cases ho
    · rename_i group tail hgroup
      obtain ⟨-, hchars, -⟩ := groupPart?_eq_some_iff.1 hgroup
      split at ho
      · split at ho
        · cases ho
        · split at ho <;> cases ho <;> exact fun g hg => (hchars g hg).2
      · cases ho
  unfold fieldTag? at h
  split at h
  · cases h
  · rename_i o after ho
    dsimp only at h
    split at h
    · cases h
      exact hopening o _ ho
    · split at h
      · cases h
      · cases h
        exact hopening o _ ho

theorem isGroupChar_of_mem_items {cs : List Char} {t : FieldTag} (h : .tag t ∈ items cs) :
    ∀ g ∈ t.group, ∀ c ∈ g, isGroupChar c = true := by
  fun_induction items cs with
  | case1 => exact absurd h mem_textItem
  | case2 cs before word name hc hn hf ih => exact ih (by simpa using h)
  | case3 cs before word name hc hn tag rest hf hr ih =>
    rcases List.mem_append.1 h with h | h
    · exact absurd h mem_textItem
    · rcases List.mem_cons.1 h with h | h
      · cases h
        exact isGroupChar_of_fieldTag? hf
      · exact ih h

end Markup

namespace Rendering

variable {s : String}

/-- The attributes that the wrapper of a field has of its group. -/
def groupAttributes (group : Option String) : List QuotedAttribute :=
  match group.filter fun g => !unwrappedGroups.contains g with
  | some g => [⟨"data-bob-group", .double, g⟩, ⟨"data-bob-group-label", .double, groupLabel g⟩]
  | none => []

theorem toList_assignment (name value : String) :
    ' ' :: (assignment name value).toList = QuotedAttribute.print ⟨name, .double, value⟩ := by
  have hmark : "=\"".toList = ['=', '"'] := rfl
  have hquote : "\"".toList = ['"'] := rfl
  simp only [assignment, String.toList_append, hmark, hquote, QuotedAttribute.print, Quote.char,
    List.append_assoc, List.cons_append, List.nil_append]

theorem wrap_eq (group : Option String) (s : String) (rendered : List Char) :
    wrap (wrapperAttributes group (some s)) rendered =
      blockHead (groupAttributes group ++ [conditionAttribute s]) ++
        '>' :: (rendered ++ "</div>".toList) := by
  have hdouble : ∀ a ∈ groupAttributes group ++ [conditionAttribute s],
      ' ' :: (assignment a.name a.value).toList = a.print := by
    unfold groupAttributes
    rcases group.filter fun g => !unwrappedGroups.contains g with _ | g <;>
      simp only [List.nil_append, List.cons_append, List.forall_mem_cons, List.not_mem_nil,
        false_imp_iff, implies_true, toList_assignment, conditionAttribute, and_self]
  have hparts : wrapperAttributes group (some s) =
      (groupAttributes group ++ [conditionAttribute s]).map fun a =>
        assignment a.name a.value := by
    unfold wrapperAttributes groupAttributes
    rcases group.filter fun g => !unwrappedGroups.contains g with _ | g <;> rfl
  have hne : (groupAttributes group ++ [conditionAttribute s]).map
      (fun a => assignment a.name a.value) ≠ [] := by simp
  have hprint := cons_toList_join (show " ".toList = [' '] from rfl) hne
  rw [List.flatMap_map, List.flatMap_congr hdouble] at hprint
  have hopen : "<div ".toList = "<div".toList ++ [' '] := by decide +kernel
  have hend : ">".toList = ['>'] := rfl
  rw [hparts, wrap, if_neg (by simp), String.toList_append, String.toList_append, hopen,
    hend, blockHead, ← hprint]
  simp only [List.append_assoc, List.cons_append, List.nil_append]

theorem notMem_groupLabel {g : String} (h : '"' ∉ g.toList) : '"' ∉ (groupLabel g).toList := by
  unfold groupLabel
  split
  · decide
  · decide
  · decide
  · decide
  · intro hmem
    rw [replace, String.toList_ofList] at hmem
    rcases Generated.mem_replaceChars hmem with hg | hblank
    · exact h hg
    · exact absurd hblank (by decide)

/-- Neither a group nor its label holds a double quote. -/
theorem isSound_groupAttributes {group : Option (List Char)}
    (h : ∀ g ∈ group, ∀ c ∈ g, isGroupChar c = true) :
    ∀ a ∈ groupAttributes (group.map String.ofList), a.IsSound := by
  unfold groupAttributes
  rcases hfilter : (group.map String.ofList).filter fun g => !unwrappedGroups.contains g with _ | g
  · exact fun a ha => absurd ha List.not_mem_nil
  · obtain ⟨hmap, -⟩ := Option.filter_eq_some_iff.1 hfilter
    obtain ⟨chars, hchars, rfl⟩ := Option.map_eq_some_iff.1 hmap
    have hg : '"' ∉ (String.ofList chars).toList := by
      rw [String.toList_ofList]
      exact fun hmem => absurd (h chars hchars _ hmem) (by decide)
    simp only [List.forall_mem_cons, List.not_mem_nil, false_imp_iff, implies_true, and_true]
    exact ⟨isSound_double (by decide) (by decide) hg,
      isSound_double (by decide) (by decide) (notMem_groupLabel hg)⟩

theorem wrap_of_field {lib : Library} {depth : Nat} {t : FieldTag} {cache : ComponentCache}
    {name : String} {out : List Char}
    (h : (field lib depth t).run' cache = .ok (some (name, out))) :
    ∃ rendered, out = wrap (wrapperAttributes (t.group.map String.ofList)
      ((Attributes.ofChars t.attrs).get? "show-if")) rendered := by
  obtain ⟨⟨result, next⟩, h, rfl⟩ := map_eq_ok_iff.1 h
  unfold field at h
  dsimp only at h
  rcases htype : (Attributes.ofChars t.attrs).get? "type" with _ | type
  · rw [htype] at h
    cases h
  · rw [htype] at h
    obtain ⟨⟨c, cache'⟩, -, h⟩ := bind_eq_ok_iff.1 h
    obtain ⟨⟨context, cache''⟩, -, h⟩ := bind_eq_ok_iff.1 h
    obtain ⟨hsome, -⟩ := Prod.mk.inj (Except.ok.inj h)
    exact ⟨_, (Prod.mk.inj (Option.some.inj hsome)).2.symm⟩

/-! ## Clusters and fields -/

/-- The opening tag of a block carries the condition, with whatever is behind it, unless the
condition holds a double quote. Such a condition is not what the tag carries. -/
structure CarriesUnquoted (s : String) (opening behind : List Char) : Prop where
  block : ∃ inside, opening = "<div".toList ++ (inside ++ ['>'])
  kept : '"' ∉ s.toList → carried? (opening ++ behind) = some s
  lost : '"' ∈ s.toList → carried? opening ≠ some s

theorem carriesUnquoted_blockHead {attributes : List QuotedAttribute}
    (h : ∀ a ∈ attributes, a.IsSound) (hne : s ≠ "") (behind : List Char) :
    CarriesUnquoted s (blockHead (attributes ++ [conditionAttribute s]) ++ ['>']) behind where
  block := ⟨_, List.append_assoc ..⟩
  kept := by
    intro hs
    rw [List.append_assoc]
    exact carried?_of_notMem h hne hs behind
  lost := carried?_ne_of_mem h

/-- The block of a cluster or of a field carries the condition, whatever it is, exactly if the
condition holds no double quote. -/
theorem a_condition_is_carried_unless_it_holds_a_double_quote (markup : List Char) (s : String) :
    (∀ out front c, expandClusters markup = .ok out → WrittenBehind markup c front →
      (Attributes.ofChars c.attrs).get? "show-if" = some s →
      ∃ behind, out = front ++ (clusterDiv (Attributes.ofChars c.attrs) ++ behind) ∧
        CarriesUnquoted s (clusterDiv (Attributes.ofChars c.attrs)) behind) ∧
    (∀ lib depth cache t name out, t ∈ fieldTags markup →
      (field lib depth t).run' cache = .ok (some (name, out)) →
      (Attributes.ofChars t.attrs).get? "show-if" = some s →
      ∃ opening behind, out = opening ++ behind ∧ CarriesUnquoted s opening behind) := by
  have hnonempty : ∀ {attrs : Attributes} {s : String}, attrs.get? "show-if" = some s → s ≠ "" :=
    fun h => by simpa using (Option.filter_eq_some_iff.1 h).2
  constructor
  · intro out front c hout hc hs
    obtain ⟨behind, rfl⟩ := prefix_of_writtenBehind hc hout
    refine ⟨behind, List.append_assoc .., ?_⟩
    rw [clusterDiv_eq hs]
    refine carriesUnquoted_blockHead ?_ (hnonempty hs) behind
    intro a ha
    rw [List.mem_singleton.1 ha]
    exact isSound_double (by decide) (by decide) (by decide)
  · intro lib depth cache t name out ht hout hs
    obtain ⟨rendered, rfl⟩ := wrap_of_field hout
    obtain ⟨item, hitem, htag⟩ := List.mem_filterMap.1 ht
    cases item with
    | text => cases htag
    | tag u =>
      obtain rfl := Option.some.inj htag
      rw [hs, wrap_eq]
      exact ⟨_, rendered ++ "</div>".toList, by simp,
        carriesUnquoted_blockHead (isSound_groupAttributes (isGroupChar_of_mem_items hitem))
          (hnonempty hs) _⟩

/-! ## A mode as a condition -/

/-- A condition as an attribute, in the quotes that it is given with. -/
def modeAttrs (quoted : String) : List Char := (" show-if=" ++ quoted).toList

def modeCluster (quoted : String) : List Char :=
  clusterOpen ++ modeAttrs quoted ++ ">x</tooldrawer-cluster>".toList

/-- The block that stands for the cluster. -/
def modeBlock (quoted : String) : List Char :=
  ("<div class=\"tdmenucontent__cluster\" data-bob-showif=" ++ quoted ++ ">x</div>").toList

theorem writtenBehind_modeCluster (quoted : String)
    (hcut : cutFolded Char.toLower clusterOpen (modeCluster quoted) =
      some ([], clusterOpen, modeAttrs quoted ++ ">x</tooldrawer-cluster>".toList))
    (htag : cutTag .outside (modeAttrs quoted ++ ">x</tooldrawer-cluster>".toList) =
      some (modeAttrs quoted, "x</tooldrawer-cluster>".toList)) :
    WrittenBehind (modeCluster quoted) ⟨modeAttrs quoted, ['x'], []⟩ [] := by
  have hname : endsName (modeAttrs quoted ++ ">x</tooldrawer-cluster>".toList) = true := by
    rw [modeAttrs, String.toList_append]
    rfl
  have hbody : clusterBody? 0 "x</tooldrawer-cluster>".toList = some (['x'], []) := by
    decide +kernel
  exact .here hcut (clusterStart_of_body hname htag hbody)

/-- A shelf with one component. -/
def toggles : Library := ⟨.memory, [("toggle", { html := some "<input>" })]⟩

/-- A field of the group of settings. -/
def modeField : FieldTag where
  source := "<tooldrawer-field-settings type='toggle' show-if=\"mode == 'a'\" />".toList
  group := some "settings".toList
  attrs := " type='toggle' show-if=\"mode == 'a'\" ".toList
  inner := none

theorem a_mode_is_carried :
    (∃ behind, modeBlock "\"mode == 'a'\"" =
        [] ++ (clusterDiv (Attributes.ofChars (modeAttrs "\"mode == 'a'\"")) ++ behind) ∧
      CarriesUnquoted "mode == 'a'"
        (clusterDiv (Attributes.ofChars (modeAttrs "\"mode == 'a'\""))) behind) ∧
    ∃ opening behind, (field toggles 0 modeField).run' [] =
        .ok (some ("toggle", opening ++ behind)) ∧
      CarriesUnquoted "mode == 'a'" opening behind := by
  obtain ⟨hclusters, -⟩ := a_condition_is_carried_unless_it_holds_a_double_quote
    (modeCluster "\"mode == 'a'\"") "mode == 'a'"
  obtain ⟨-, hfields⟩ := a_condition_is_carried_unless_it_holds_a_double_quote
    modeField.source "mode == 'a'"
  have hexpand : expandClusters (modeCluster "\"mode == 'a'\"") =
      .ok (modeBlock "\"mode == 'a'\"") := by
    decide +kernel
  have hcluster := writtenBehind_modeCluster "\"mode == 'a'\"" (by decide +kernel)
    (by decide +kernel)
  have hfield : (field toggles 0 modeField).run' [] = .ok (some ("toggle",
      ("<div data-bob-group=\"settings\" data-bob-group-label=\"settings\"" ++
        " data-bob-showif=\"mode == 'a'\"><input></div>").toList)) := by
    decide +kernel
  obtain ⟨opening, behind, hout, hcarries⟩ := hfields _ _ _ _ _ _
    (by decide +kernel) hfield (by decide +kernel)
  have hblock := hclusters _ _ _ hexpand hcluster (by decide +kernel)
  exact ⟨hblock, opening, behind, hout ▸ hfield, hcarries⟩

theorem a_condition_is_not_always_carried :
    expandClusters (modeCluster "'mode == \"a\"'") = .ok (modeBlock "\"mode == \"a\"\"") ∧
      ¬ ∀ markup out front c s, expandClusters markup = .ok out → WrittenBehind markup c front →
        (Attributes.ofChars c.attrs).get? "show-if" = some s →
        carried? (out.drop front.length) = some s := by
  have hexpand : expandClusters (modeCluster "'mode == \"a\"'") =
      .ok (modeBlock "\"mode == \"a\"\"") := by
    decide +kernel
  have hcluster := writtenBehind_modeCluster "'mode == \"a\"'" (by decide +kernel)
    (by decide +kernel)
  refine ⟨hexpand, fun h => ?_⟩
  have hcarried := h _ _ _ _ "mode == \"a\"" hexpand hcluster (by decide +kernel)
  revert hcarried
  decide +kernel

end Rendering

end WidgetSchema
