-- The lines that are generated. Inside of its panel a generated section holds no bracket but
-- those of its own tags, whatever choices the tags list, so it neither opens a panel nor
-- closes one.
import WidgetSchema.Generated.Sections
import WidgetSchema.Proofs.Markup.Document
import WidgetSchema.Proofs.Markup.PanelLines
import WidgetSchema.Proofs.Node.Letters
import WidgetSchema.Proofs.Node.Position
import WidgetSchema.Proofs.Text.Within
namespace WidgetSchema.Generated

open Text Markup

variable {c : Char}

/-! ## Choices in an attribute -/

theorem mem_replaceChars {word new cs : List Char} (h : c ∈ replaceChars word new cs) :
    c ∈ cs ∨ c ∈ new := by
  fun_induction replaceChars word new cs with
  | case1 => exact .inl h
  | case2 cs hword before rest hcut hlt ih =>
    rw [List.mem_append, List.mem_append] at h
    have hcs := append_of_cutAt hcut
    rcases h with (hbefore | hnew) | hrest
    · exact .inl (by rw [← hcs]; simp [hbefore])
    · exact .inr hnew
    · refine (ih hrest).imp_left fun hmem => ?_
      rw [← hcs]
      simp [hmem]
  | case3 => exact .inl h

theorem mem_join {sep : String} {parts : List String} (h : c ∈ (join sep parts).toList) :
    c ∈ sep.toList ∨ ∃ part ∈ parts, c ∈ part.toList := by
  rw [join, String.toList_intercalate] at h
  rcases mem_of_mem_intercalate h with hsep | ⟨cs, hcs, hc⟩
  · exact .inl hsep
  · obtain ⟨part, hpart, rfl⟩ := List.mem_map.1 hcs
    exact .inr ⟨part, hpart, hc⟩

theorem notMem_encodeChoices (hc : c = '<' ∨ c = '\'') {n : Node} (h : n.Lacks c) :
    c ∉ (encodeChoices n).toList := by
  rw [encodeChoices, replace, String.toList_ofList]
  intro hmem
  rcases mem_replaceChars hmem with htext | hquote
  · refine Node.notMem_text ?_ h htext
    rcases hc with rfl | rfl <;> decide
  · rcases hc with rfl | rfl <;> exact absurd hquote (by decide)

theorem lacks_choice (hc : c = '<' ∨ c = '\'') {o : Choice} (hlabel : c ∉ o.label.toList)
    (hvalue : c ∉ o.value.toList) : o.toNode.Lacks c := by
  have hkeys : c ∉ "label".toList ∧ c ∉ "value".toList := by
    rcases hc with rfl | rfl <;> decide
  refine .object ?_ ?_ <;>
    simp only [List.forall_mem_cons, List.not_mem_nil, false_imp_iff, implies_true, and_true]
  · exact hkeys
  · exact ⟨.string hlabel, .string hvalue⟩

theorem notMem_choiceList (hc : c = '<' ∨ c = '\'') {choices : List (String × String)}
    (h : ∀ o ∈ choices, c ∉ o.1.toList ∧ c ∉ o.2.toList) : c ∉ (choiceList choices).toList := by
  refine notMem_encodeChoices hc (.array fun n hn => ?_)
  obtain ⟨⟨label, value⟩, ho, rfl⟩ := List.mem_map.1 hn
  obtain ⟨hlabel, hvalue⟩ := h _ ho
  exact lacks_choice hc hlabel hvalue

/-! ## Fonts -/

theorem notMem_weights (family : String) : ∀ w ∈ Font.weightsOf family, '<' ∉ w.toList := by
  intro w hw
  unfold Font.weightsOf at hw
  rcases haxes : Font.axes? family with _ | axes <;> rw [haxes] at hw
  · cases hw
  · obtain ⟨n, -, rfl⟩ := List.mem_map.1 hw
    exact notMem_toString rfl n

theorem notMem_styles (family : String) : ∀ s ∈ Font.stylesOf family, '<' ∉ s.toList := by
  unfold Font.stylesOf
  split
  · simp
  · split <;> decide

theorem mem_of_lookup {α β : Type} [BEq α] [LawfulBEq α] {key : α} {value : β} {ps : List (α × β)}
    (h : ps.lookup key = some value) : (key, value) ∈ ps := by
  induction ps with
  | nil => cases h
  | cons p ps ih =>
    rw [List.lookup_cons] at h
    split at h
    · rename_i hkey
      rw [eq_of_beq hkey, ← Option.some.inj h]
      exact List.mem_cons_self
    · exact List.mem_cons_of_mem p (ih h)

theorem notMem_weightChoices : '<' ∉ weightChoices.toList := by
  refine notMem_encodeChoices (.inl rfl) (.array fun n hn => ?_)
  obtain ⟨o, ho, rfl⟩ := List.mem_map.1 hn
  obtain ⟨w, hw, rfl⟩ := List.mem_map.1 ho
  obtain ⟨n, -, rfl⟩ := List.mem_map.1 hw
  have hweight : '<' ∉ (toString n).toList := notMem_toString rfl n
  unfold Font.weightChoice
  split
  · rename_i name hname
    have hname : '<' ∉ name.toList :=
      (show ∀ p ∈ Font.weightNames, '<' ∉ p.2.toList by decide) _ (mem_of_lookup hname)
    refine lacks_choice (.inl rfl) ?_ hweight
    simp only [String.toList_append, List.mem_append, not_or]
    exact ⟨⟨⟨hname, by decide⟩, hweight⟩, by decide⟩
  · exact lacks_choice (.inl rfl) hweight hweight

theorem notMem_fontChoices : '<' ∉ fontChoices.toList := by
  refine notMem_encodeChoices (.inl rfl) (.array fun n hn => ?_)
  obtain ⟨⟨family, axes⟩, hfont, rfl⟩ := List.mem_map.1 hn
  have hfamily : '<' ∉ family.toList :=
    (show ∀ f ∈ Font.catalogue, '<' ∉ f.1.toList by decide) _ hfont
  have hjoin {parts : List String} (h : ∀ part ∈ parts, '<' ∉ part.toList) :
      '<' ∉ (join "," parts).toList := by
    intro hmem
    rcases mem_join hmem with hcomma | ⟨part, hpart, hc⟩
    · exact absurd hcomma (by decide)
    · exact h part hpart hc
  refine .object ?_ ?_ <;>
    simp only [List.forall_mem_cons, List.not_mem_nil, false_imp_iff, implies_true, and_true]
  · decide
  exact ⟨.string hfamily, .string (hjoin (notMem_styles family)), .string hfamily,
    .string (hjoin (notMem_weights family))⟩

/-! ## Lines of one tag -/

theorem notMem_append {s t : String} (hs : c ∉ s.toList) (ht : c ∉ t.toList) :
    c ∉ (s ++ t).toList := by
  rw [String.toList_append, List.mem_append, not_or]
  exact ⟨hs, ht⟩

/-- A line with the tag of another name, and no further bracket. -/
theorem isPlain_tagLine {indent tag rest : String} (hindent : '<' ∉ indent.toList)
    (hname : tag.toList.take 2 = ['<', 't']) (htag : '<' ∉ tag.toList.tail)
    (hrest : '<' ∉ rest.toList) : IsPlain (indent ++ (tag ++ rest)).toList := by
  rw [String.toList_append, String.toList_append]
  rcases htail : tag.toList with _ | ⟨a, _ | ⟨b, more⟩⟩ <;> rw [htail] at hname htag <;> cases hname
  refine isPlain_tag hindent (fun hmem => ?_) rfl rfl
  rcases List.mem_append.1 hmem with hmem | hmem
  · exact htag hmem
  · exact hrest hmem

/-! ## The typography panel -/

theorem notMem_sizeChoices : '<' ∉ sizeChoices.toList := notMem_choiceList (.inl rfl) (by decide)

theorem notMem_styleChoices : '<' ∉ styleChoices.toList := notMem_choiceList (.inl rfl) (by decide)

theorem isPlain_roleField {indent type path label extra : String} (hindent : '<' ∉ indent.toList)
    (htype : '<' ∉ type.toList) (hpath : '<' ∉ path.toList) (hlabel : '<' ∉ label.toList)
    (hextra : '<' ∉ extra.toList) :
    IsPlain (indent ++ roleField type path label extra).toList := by
  have hparts (tag : String) : tag ++ type ++ "' size='md'" ++ path ++ " label='" ++ label ++
      "'" ++ extra ++ " />" = tag ++ (type ++ "' size='md'" ++ path ++ " label='" ++ label ++
        "'" ++ extra ++ " />") := by
    simp only [String.append_assoc]
  unfold roleField
  rw [hparts]
  refine isPlain_tagLine hindent (by decide) (by decide) ?_
  have hsize : '<' ∉ "' size='md'".toList := by decide
  have hmark : '<' ∉ " label='".toList := by decide
  have hquote : '<' ∉ "'".toList := by decide
  have hend : '<' ∉ " />".toList := by decide
  have hlabel' := notMem_append (notMem_append (notMem_append (notMem_append htype hsize) hpath)
    hmark) hlabel
  exact notMem_append (notMem_append (notMem_append hlabel' hquote) hextra) hend

theorem notMem_pathAttribute {path : String} (h : '<' ∉ path.toList) :
    '<' ∉ (pathAttribute path).toList :=
  notMem_append (notMem_append (by decide) h) (by decide)

theorem notMem_chosenFrom {placeholder choices : String} (hplaceholder : '<' ∉ placeholder.toList)
    (hchoices : '<' ∉ choices.toList) : '<' ∉ (chosenFrom placeholder choices).toList :=
  notMem_append (notMem_append (notMem_append (notMem_append (by decide) hplaceholder)
    (by decide)) hchoices) (by decide)

theorem isPlain_roleCluster {role label : String} (hrole : '<' ∉ role.toList)
    (hlabel : '<' ∉ label.toList) : ∀ line ∈ roleCluster role label, IsPlain line.toList := by
  have hbase : '<' ∉ ("typography.roles." ++ role).toList := notMem_append (by decide) hrole
  have hmenu {field label placeholder choices : String} (hfield : '<' ∉ field.toList)
      (hlabel : '<' ∉ label.toList) (hplaceholder : '<' ∉ placeholder.toList)
      (hchoices : '<' ∉ choices.toList) :
      IsPlain ("    " ++ roleField "dropdown-actions"
        (pathAttribute ("typography.roles." ++ role ++ "." ++ field)) label
        (chosenFrom placeholder choices)).toList :=
    isPlain_roleField (by decide) (by decide)
      (notMem_pathAttribute (notMem_append (notMem_append hbase (by decide)) hfield)) hlabel
      (notMem_chosenFrom hplaceholder hchoices)
  have hcluster : IsPlain ("  <tooldrawer-cluster label='" ++ label ++ "'>").toList := by
    have hline : "  <tooldrawer-cluster label='" ++ label ++ "'>" =
        "  " ++ ("<tooldrawer-cluster label='" ++ (label ++ "'>")) := by
      rw [← String.append_assoc, ← String.append_assoc]
      rfl
    rw [hline]
    exact isPlain_tagLine (by decide) (by decide) (by decide) (notMem_append hlabel (by decide))
  simp only [roleCluster, List.forall_mem_cons, List.not_mem_nil, false_imp_iff, implies_true,
    and_true]
  refine ⟨hcluster, ?_, ?_, ?_, ?_, ?_, ?_, by decide⟩
  · exact hmenu (by decide) (by decide) (by decide) notMem_fontChoices
  · exact hmenu (by decide) (by decide) (by decide) notMem_sizeChoices
  · exact isPlain_roleField (by decide) (by decide)
      (notMem_pathAttribute (notMem_append hbase (by decide))) (by decide)
      (notMem_append (notMem_append (by decide) hbase) (by decide))
  · exact hmenu (by decide) (by decide) (by decide) notMem_styleChoices
  · exact hmenu (by decide) (by decide) (by decide) notMem_weightChoices
  · exact isPlain_roleField (by decide) (by decide)
      (notMem_append (by decide) (notMem_pathAttribute (notMem_append hbase (by decide))))
      (by decide) (by decide)

/-- The lines of the typography panel between its tags. -/
def typographyLines (roles : Node) : List String :=
  familyLine :: (knownRoles.filter fun (role, _) => (roles.member? role).isSome).flatMap
    fun (role, label) => roleCluster role label

/-- There is no panel, or one between an opening and a closing line. -/
theorem typographyPanel_eq (roles : Node) : typographyPanel roles = [] ∨
    typographyPanel roles = panelOpen "typography" :: typographyLines roles ++ [panelClose] := by
  unfold typographyPanel typographyLines
  split
  · exact .inl rfl
  · exact .inr rfl

/-- There is one just when a known role is declared. -/
theorem typographyPanel_ne_nil_iff (roles : Node) :
    typographyPanel roles ≠ [] ↔ ∃ p ∈ knownRoles, (roles.member? p.1).isSome = true := by
  unfold typographyPanel
  split
  · rename_i hnone
    rw [List.filter_eq_nil_iff] at hnone
    simpa using hnone
  · rename_i declared hsome
    obtain ⟨p, hp⟩ := List.exists_mem_of_ne_nil _ hsome
    obtain ⟨hknown, hdeclared⟩ := List.mem_filter.1 hp
    simp only [List.cons_append, ne_eq, reduceCtorEq, not_false_eq_true, true_iff]
    exact ⟨p, hknown, hdeclared⟩

theorem isPlain_typographyLines (roles : Node) :
    ∀ line ∈ typographyLines roles, IsPlain line.toList := by
  intro line hline
  rcases List.mem_cons.1 hline with rfl | hline
  · exact isPlain_roleField (by decide) (by decide) (notMem_pathAttribute (by decide)) (by decide)
      (by decide)
  · obtain ⟨⟨role, label⟩, hrole, hmem⟩ := List.mem_flatMap.1 hline
    obtain ⟨hrole', hlabel'⟩ :=
      (show ∀ p ∈ knownRoles, '<' ∉ p.1.toList ∧ '<' ∉ p.2.toList by decide) _
        (List.mem_of_mem_filter hrole)
    exact isPlain_roleCluster hrole' hlabel' line hmem

end WidgetSchema.Generated
