-- The lines of the section for stage and pod. Each one is a field tag that is closed by itself
-- and written as tags are, or it groups such tags.
import WidgetSchema.Proofs.Generated.Lines
namespace WidgetSchema.Generated

open Text Markup

/-! ## Values that end no attribute -/

/-- Text that can stand in an attribute, whatever its quotes. -/
def Unquoted (s : String) : Prop := ∀ c ∈ s.toList, c ≠ '<' ∧ c ≠ '\'' ∧ c ≠ '"'

instance (s : String) : Decidable (Unquoted s) := List.decidableBAll _ s.toList

theorem Unquoted.append {s t : String} (hs : Unquoted s) (ht : Unquoted t) : Unquoted (s ++ t) := by
  intro c hc
  rw [String.toList_append] at hc
  rcases List.mem_append.1 hc with hc | hc
  · exact hs c hc
  · exact ht c hc

theorem Unquoted.notMem {s : String} (h : Unquoted s) :
    '<' ∉ s.toList ∧ '\'' ∉ s.toList ∧ '"' ∉ s.toList :=
  ⟨fun hc => (h _ hc).1 rfl, fun hc => (h _ hc).2.1 rfl, fun hc => (h _ hc).2.2 rfl⟩

/-! ## Tags on a line of their own -/

/-- An attribute that neither starts a tag in its value nor holds a template. -/
structure IsSimple (a : QuotedAttribute) : Prop where
  sound : a.IsSound
  value : '<' ∉ a.value.toList
  name : a.name ≠ "template"

theorem isSimple_of_name {name value : String} {quote : Quote}
    (hname : QuotedAttribute.IsSound ⟨name, quote, ""⟩ ∧ name ≠ "template")
    (hquote : quote.char ∉ value.toList) (hbracket : '<' ∉ value.toList) :
    IsSimple ⟨name, quote, value⟩ :=
  ⟨⟨hname.1.nonempty, hname.1.name, hquote⟩, hbracket, hname.2⟩

/-- A line of the section: one that groups fields, or a field. -/
inductive SectionLine : String → Prop
  | group {line : String} :
      line ∈ [clusterStartLine, clusterEndLine, "    <tooldrawer-eyebrow text='Pod layout' />",
        "    <tooldrawer-eyebrow text='Stage layout' />"] → SectionLine line
  | field {line : String} {head : TagHead} : head.IsSound → (∀ a ∈ head.attributes, IsSimple a) →
      line.toList = "    ".toList ++ (Content.closed head).print → SectionLine line

theorem notMem_attribute {a : QuotedAttribute} (h : IsSimple a) : '<' ∉ a.print := by
  have hname : '<' ∉ a.name.toList := fun hmem => by
    rcases h.sound.name _ hmem with hletter | hmark | hdash
    · exact absurd hletter (by decide)
    · exact absurd hmark (by decide)
    · exact absurd hdash (by decide)
  have hquote : '<' ≠ a.quote.char := by
    rcases a.quote with _ | _ <;> decide
  simp only [QuotedAttribute.print, List.mem_cons, List.mem_append, List.not_mem_nil, or_false,
    not_or]
  exact ⟨by decide, hname, by decide, ⟨hquote, h.value⟩, hquote⟩

theorem notMem_tag {head : TagHead} (h : head.IsSound)
    (hsimple : ∀ a ∈ head.attributes, IsSimple a) :
    '<' ∉ groupText head.group ++ (head.print ++ ['/', '>']) := by
  have hgroup : '<' ∉ groupText head.group := fun hmem => by
    rcases hg : head.group with _ | g <;> rw [hg] at hmem
    · cases hmem
    · rcases List.mem_cons.1 hmem with hdash | hmem
      · exact absurd hdash (by decide)
      · exact absurd ((h.group g hg).2 _ hmem) (by decide)
  have hattributes : '<' ∉ head.attributes.flatMap QuotedAttribute.print := fun hmem => by
    obtain ⟨a, ha, hmem⟩ := List.mem_flatMap.1 hmem
    exact notMem_attribute (hsimple a ha) hmem
  have hgap : '<' ∉ head.gap := fun hmem => absurd (h.gap _ hmem) (by decide)
  simp only [TagHead.print, List.mem_append, not_or]
  exact ⟨hgroup, ⟨hattributes, hgap⟩, by decide⟩

theorem SectionLine.isPlain {line : String} (h : SectionLine line) : IsPlain line.toList := by
  cases h with
  | group hline =>
    revert line
    decide
  | field hhead hsimple hline =>
    have hname : fieldOpen = '<' :: 't' :: "ooldrawer-field".toList := by decide
    rw [hline, Content.print, hname]
    refine isPlain_tag (by decide) (fun hmem => ?_) rfl rfl
    rcases List.mem_append.1 hmem with hmem | hmem
    · exact absurd hmem (by decide)
    · exact notMem_tag hhead hsimple hmem

/-! ## The section -/

/-- The group and the attributes of a field of the section. -/
def layoutHead (path type label : String) (more : List QuotedAttribute) : TagHead where
  group := some "podstagelayout".toList
  attributes := ⟨"type", .single, type⟩ :: ⟨"size", .single, "md"⟩ :: ⟨"path", .single, path⟩ ::
    ⟨"label", .single, label⟩ :: more
  gap := [' ']

theorem toList_layoutField {path type label extra : String} {more : List QuotedAttribute}
    (h : extra.toList = more.flatMap QuotedAttribute.print) :
    (layoutField path type label extra).toList =
      "    ".toList ++ (Content.closed (layoutHead path type label more)).print := by
  have hname : "    <".toList ++ layoutTag.toList =
      "    ".toList ++ (fieldOpen ++ '-' :: "podstagelayout".toList) := by decide
  have htype : " type='".toList = ' ' :: ("type".toList ++ ['=', '\'']) := by decide
  have hpath : "' size='md' path='".toList = '\'' :: ' ' :: ("size".toList ++ '=' :: '\'' ::
      ("md".toList ++ '\'' :: ' ' :: ("path".toList ++ ['=', '\'']))) := by decide
  have hlabel : "' label='".toList = '\'' :: ' ' :: ("label".toList ++ ['=', '\'']) := by decide
  have hquote : "'".toList = ['\''] := by decide
  have hend : " />".toList = [' ', '/', '>'] := by decide
  unfold layoutField
  simp only [String.toList_append, hname, htype, hpath, hlabel, hquote, hend, h, Content.print,
    layoutHead, TagHead.print, groupText, List.flatMap_cons, QuotedAttribute.print, Quote.char,
    List.append_assoc, List.cons_append, List.nil_append]

/-- The tag of a field can be read back, and holds no other tag. -/
theorem isSound_layoutHead {path type label : String} {more : List QuotedAttribute}
    (hpath : Unquoted path) (htype : Unquoted type) (hlabel : Unquoted label)
    (hmore : ∀ a ∈ more, IsSimple a) : (layoutHead path type label more).IsSound ∧
      ∀ a ∈ (layoutHead path type label more).attributes, IsSimple a := by
  have hsimple : ∀ a ∈ (layoutHead path type label more).attributes, IsSimple a := by
    simp only [layoutHead, List.forall_mem_cons]
    refine ⟨?_, ?_, ?_, ?_, hmore⟩
    · exact isSimple_of_name (by decide) htype.notMem.2.1 htype.notMem.1
    · exact isSimple_of_name (by decide) (by decide) (by decide)
    · exact isSimple_of_name (by decide) hpath.notMem.2.1 hpath.notMem.1
    · exact isSimple_of_name (by decide) hlabel.notMem.2.1 hlabel.notMem.1
  have hgroup : ∀ g ∈ (layoutHead path type label more).group,
      g ≠ [] ∧ ∀ c ∈ g, isGroupChar c = true := by
    rintro g ⟨⟩
    exact ⟨by decide, List.all_eq_true.1 (by decide)⟩
  have hgap : ∀ c ∈ [' '], isAsciiBlank c = true := List.all_eq_true.1 (by decide)
  exact ⟨⟨hgroup, fun a ha => (hsimple a ha).sound, hgap⟩, hsimple⟩

theorem sectionLine_field {path type label extra : String} (more : List QuotedAttribute)
    (hpath : Unquoted path) (htype : Unquoted type) (hlabel : Unquoted label)
    (hextra : extra.toList = more.flatMap QuotedAttribute.print)
    (hmore : ∀ a ∈ more, IsSimple a) : SectionLine (layoutField path type label extra) := by
  obtain ⟨hsound, hsimple⟩ := isSound_layoutHead hpath htype hlabel hmore
  exact .field hsound hsimple (toList_layoutField hextra)

theorem sectionLine_bare {path type label : String} (hpath : Unquoted path)
    (htype : Unquoted type) (hlabel : Unquoted label) :
    SectionLine (layoutField path type label "") :=
  sectionLine_field [] hpath htype hlabel rfl (by simp)

/-- A field that is shown under a condition. -/
theorem sectionLine_showIf {path type label condition : String} (hpath : Unquoted path)
    (htype : Unquoted type) (hlabel : Unquoted label) (hbracket : '<' ∉ condition.toList)
    (hquote : '"' ∉ condition.toList) :
    SectionLine (layoutField path type label (showIf condition)) := by
  refine sectionLine_field [⟨"show-if", .double, condition⟩] hpath htype hlabel ?_ ?_
  · simp [showIf, String.toList_append, QuotedAttribute.print, Quote.char]
  · simp only [List.forall_mem_cons, List.not_mem_nil, false_imp_iff, implies_true, and_true]
    exact isSimple_of_name (by decide) hquote hbracket

theorem toList_withChoices (placeholder : String) (choices : List (String × String)) :
    (withChoices placeholder choices).toList = [⟨"placeholder", .single, placeholder⟩,
      ⟨"options", .single, choiceList choices⟩].flatMap QuotedAttribute.print := by
  have hplaceholder : " placeholder='".toList =
      ' ' :: ("placeholder".toList ++ ['=', '\'']) := by decide
  have hoptions : "' options='".toList =
      '\'' :: ' ' :: ("options".toList ++ ['=', '\'']) := by decide
  have hend : "'".toList = ['\''] := by decide
  simp only [withChoices, String.toList_append, hplaceholder, hoptions, hend, List.flatMap_cons,
    List.flatMap_nil, QuotedAttribute.print, Quote.char, List.append_assoc, List.cons_append,
    List.nil_append, List.append_nil]

/-- A field with choices. -/
theorem sectionLine_choices {path type label placeholder : String}
    {choices : List (String × String)} (hpath : Unquoted path) (htype : Unquoted type)
    (hlabel : Unquoted label) (hplaceholder : Unquoted placeholder)
    (hchoices : ∀ o ∈ choices, Unquoted o.1 ∧ Unquoted o.2) :
    SectionLine (layoutField path type label (withChoices placeholder choices)) := by
  have hbracket : '<' ∉ (choiceList choices).toList := notMem_choiceList (.inl rfl) fun o ho =>
    ⟨(hchoices o ho).1.notMem.1, (hchoices o ho).2.notMem.1⟩
  have hquote : '\'' ∉ (choiceList choices).toList := notMem_choiceList (.inr rfl) fun o ho =>
    ⟨(hchoices o ho).1.notMem.2.1, (hchoices o ho).2.notMem.2.1⟩
  refine sectionLine_field [⟨"placeholder", .single, placeholder⟩,
    ⟨"options", .single, choiceList choices⟩] hpath htype hlabel
    (toList_withChoices placeholder choices) ?_
  simp only [List.forall_mem_cons, List.not_mem_nil, false_imp_iff, implies_true, and_true]
  exact ⟨isSimple_of_name (by decide) hplaceholder.notMem.2.1 hplaceholder.notMem.1,
    isSimple_of_name (by decide) hquote hbracket⟩

theorem sectionLine_devicePadding {owner title device : String} (howner : Unquoted owner)
    (htitle : Unquoted title) (hdevice : Unquoted device) :
    ∀ line ∈ devicePadding owner title device, SectionLine line := by
  have hbase : Unquoted (owner ++ ".padding." ++ device) :=
    (howner.append (by decide)).append hdevice
  have hunit : Unquoted ("(" ++ device ++ " px)") :=
    Unquoted.append (Unquoted.append (by decide) hdevice) (by decide)
  have hlink : Unquoted ("Link " ++ owner ++ " padding (" ++ device ++ ")") :=
    ((Unquoted.append (Unquoted.append (by decide) howner) (by decide)).append hdevice).append
      (by decide)
  have hcondition {state : String} (hstate : Unquoted state) :=
    (hbase.append hstate).notMem
  intro line hline
  rcases List.mem_append.1 hline with hline | hline
  · simp only [List.mem_cons, List.not_mem_nil, or_false] at hline
    rcases hline with rfl | rfl
    · exact sectionLine_bare (hbase.append (by decide)) (by decide) hlink
    · have hlinked := hcondition (show Unquoted ".linked == true" by decide)
      exact sectionLine_showIf (hbase.append (by decide)) (by decide)
        ((htitle.append (by decide)).append hunit) hlinked.1 hlinked.2.2
  · obtain ⟨side, hside, rfl⟩ := List.mem_map.1 hline
    have hside : Unquoted side :=
      (show ∀ side ∈ ["top", "right", "bottom", "left"], Unquoted side by decide) side hside
    have hfree := hcondition (show Unquoted ".linked == false" by decide)
    exact sectionLine_showIf ((hbase.append (by decide)).append hside) (by decide)
      ((((htitle.append (by decide)).append hside).append (by decide)).append hunit) hfree.1
      hfree.2.2

theorem sectionLine_paddingFields {owner title : String} (howner : Unquoted owner)
    (htitle : Unquoted title) : ∀ line ∈ paddingFields owner title, SectionLine line := by
  intro line hline
  rcases List.mem_append.1 hline with hline | hline
  · exact sectionLine_devicePadding howner htitle (by decide) line hline
  · exact sectionLine_devicePadding howner htitle (by decide) line hline

theorem sectionLine_podFields : ∀ line ∈ podFields, SectionLine line := by
  intro line hline
  rcases List.mem_append.1 hline with hline | hline
  · simp only [List.mem_cons, List.not_mem_nil, or_false] at hline
    rcases hline with rfl | rfl | rfl
    · exact sectionLine_choices (by decide) (by decide) (by decide) (by decide) (by decide)
    · exact sectionLine_showIf (by decide) (by decide) (by decide) (by decide) (by decide)
    · exact sectionLine_choices (by decide) (by decide) (by decide) (by decide) (by decide)
  · exact sectionLine_paddingFields (by decide) (by decide) line hline

theorem sectionLine_stageFields : ∀ line ∈ stageFields, SectionLine line := by
  intro line hline
  rcases List.mem_append.1 hline with hline | hline
  · simp only [List.mem_cons, List.not_mem_nil, or_false] at hline
    rcases hline with rfl | rfl | rfl
    · exact sectionLine_choices (by decide) (by decide) (by decide) (by decide) (by decide)
    · exact sectionLine_showIf (by decide) (by decide) (by decide) (by decide) (by decide)
    · exact sectionLine_showIf (by decide) (by decide) (by decide) (by decide) (by decide)
  · exact sectionLine_paddingFields (by decide) (by decide) line hline

theorem sectionLine_headedCluster {heading : String} {fields : List String}
    (hheading : "    <tooldrawer-eyebrow text='" ++ heading ++ "' />" ∈
      ["    <tooldrawer-eyebrow text='Pod layout' />",
        "    <tooldrawer-eyebrow text='Stage layout' />"])
    (h : ∀ line ∈ fields, SectionLine line) :
    ∀ line ∈ headedCluster heading fields, SectionLine line := by
  intro line hline
  rcases List.mem_append.1 hline with hline | hend
  · rcases List.mem_cons.1 hline with rfl | hline
    · exact .group (by simp)
    rcases List.mem_cons.1 hline with rfl | hline
    · exact .group (List.mem_cons_of_mem _ (List.mem_cons_of_mem _ hheading))
    · exact h line hline
  · obtain rfl := List.mem_singleton.1 hend
    exact .group (by simp)

theorem sectionLine_layoutFields : ∀ line ∈ layoutFields, SectionLine line := by
  intro line hline
  rcases List.mem_append.1 hline with hline | hline
  · exact sectionLine_headedCluster (by decide) sectionLine_podFields line hline
  · exact sectionLine_headedCluster (by decide) sectionLine_stageFields line hline

theorem isPlain_layoutFields : ∀ line ∈ layoutFields, IsPlain line.toList := fun line hline =>
  (sectionLine_layoutFields line hline).isPlain

end WidgetSchema.Generated
