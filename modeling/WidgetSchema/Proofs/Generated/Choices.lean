-- Choices in the attribute of a tag. Their text is written without quotes, so the tag holds it
-- as it was written, and where no text of theirs holds an entity or ends the attribute, the
-- quotes are all that is decoded: the choices are read as they are.
import WidgetSchema.Declaration.Basic
import WidgetSchema.Proofs.Generated.LayoutLines
import WidgetSchema.Proofs.Markup.Entities
import WidgetSchema.Proofs.Markup.Within
import WidgetSchema.Proofs.Node.Compact
namespace WidgetSchema

open Text Markup

/-! ## Words in the text of strings -/

namespace Node

variable {word : List Char}

/-- A character is written as it is, or as a backslash with marks of the format behind it. -/
theorem escapeChar_eq (c : Char) :
    escapeChar c = [c] ∨ ∃ letters, escapeChar c = '\\' :: letters ∧ letters ⊆ marks := by
  unfold escapeChar
  split
  · exact .inr ⟨_, rfl, by decide⟩
  split
  · exact .inr ⟨_, rfl, by decide⟩
  split
  · exact .inr ⟨_, rfl, by decide⟩
  split
  · exact .inr ⟨_, rfl, by decide⟩
  split
  · exact .inr ⟨_, rfl, by decide⟩
  split
  · exact .inr ⟨_, rfl, by decide⟩
  split
  · exact .inr ⟨_, rfl, by decide⟩
  split
  · refine .inr ⟨_, rfl, ?_⟩
    simp only [List.cons_subset, List.nil_subset, and_true]
    exact ⟨by decide, by decide, by decide, hexDigit_mem_marks _ (by omega),
      hexDigit_mem_marks _ (by omega)⟩
  · exact .inl rfl

/-- A word without backslashes stands where it is written. -/
theorem prefix_of_prefix_escaped (hback : '\\' ∉ word) {cs : List Char}
    (h : word <+: cs.flatMap escapeChar) : word <+: cs := by
  induction cs generalizing word with
  | nil => exact h
  | cons c cs ih =>
    rw [List.flatMap_cons] at h
    rcases escapeChar_eq c with hc | ⟨letters, hc, -⟩ <;> rw [hc, List.cons_append] at h <;>
      rcases List.prefix_cons_iff.1 h with rfl | ⟨tail, rfl, htail⟩
    · exact List.nil_prefix
    · exact List.cons_prefix_cons.2
        ⟨rfl, ih (fun hmem => hback (List.mem_cons_of_mem c hmem)) htail⟩
    · exact List.nil_prefix
    · exact absurd List.mem_cons_self hback

theorem infix_of_infix_escaped {first : Char} (hback : '\\' ∉ first :: word)
    (hfirst : first ∉ marks) {cs : List Char} (h : first :: word <:+: cs.flatMap escapeChar) :
    first :: word <:+: cs := by
  induction cs with
  | nil => exact h
  | cons c cs ih =>
    rcases escapeChar_eq c with hc | ⟨letters, hc, hletters⟩
    · have hwritten : (c :: cs).flatMap escapeChar = c :: cs.flatMap escapeChar := by
        rw [List.flatMap_cons, hc, List.singleton_append]
      rcases List.infix_cons_iff.1 (hwritten ▸ h) with hp | hi
      · exact (prefix_of_prefix_escaped hback (hwritten ▸ hp)).isInfix
      · exact List.infix_cons_iff.2 (.inr (ih hi))
    · have hskip : first ∉ '\\' :: letters := by
        rw [List.mem_cons, not_or]
        exact ⟨fun heq => hback (heq ▸ List.mem_cons_self), fun hmem => hfirst (hletters hmem)⟩
      rw [List.flatMap_cons, hc] at h
      exact List.infix_cons_iff.2 (.inr (ih (infix_of_infix_append hskip h)))

/-- Strings stand apart: between quotes. -/
theorem infix_of_infix_quoted {first : Char} (hword : '\\' ∉ first :: word ∧ '"' ∉ first :: word)
    (hfirst : first ∉ marks) {s : String} {more : List Char}
    (h : first :: word <:+: (quoted s).toList ++ more) :
    first :: word <:+: s.toList ∨ first :: word <:+: more := by
  have hwritten : (quoted s).toList ++ more =
      '"' :: (s.toList.flatMap escapeChar ++ '"' :: more) := by
    rw [quoted, String.toList_ofList]
    simp
  have hquote : first ∉ ['"'] := fun hmem => hword.2 (by simp [List.mem_singleton.1 hmem])
  rw [hwritten] at h
  exact (infix_of_infix_append_cons hword.2 (infix_of_infix_append hquote h)).imp_left
    (infix_of_infix_escaped hword.1 hfirst)

end Node

/-! ## Texts that an attribute holds as they are -/

/-- A text that does not end an attribute in single quotes, and in which nothing is decoded. -/
structure StaysEncoded (s : String) : Prop where
  apostrophe : '\'' ∉ s.toList
  entity : ¬ Entity.HoldsEntity s.toList

instance (s : String) : Decidable (StaysEncoded s) :=
  decidable_of_iff ('\'' ∉ s.toList ∧ ¬ Entity.HoldsEntity s.toList)
    ⟨fun h => ⟨h.1, h.2⟩, fun h => ⟨h.apostrophe, h.entity⟩⟩

def Choice.StaysEncoded (o : Choice) : Prop :=
  WidgetSchema.StaysEncoded o.label ∧ WidgetSchema.StaysEncoded o.value

instance : DecidablePred Choice.StaysEncoded := fun _ => instDecidableAnd

/-- A choice with a label or a value. -/
def Choice.IsUsable (o : Choice) : Prop := o.label ≠ "" ∨ o.value ≠ ""

instance : DecidablePred Choice.IsUsable := fun _ => instDecidableOr

namespace Generated

/-- Choices as a tree. -/
def choicesNode (choices : List Choice) : Node := .array (choices.map Choice.toNode)

variable {choices : List Choice}

/-! ## The text of choices -/

theorem text_toNode (o : Choice) : o.toNode.text.toList =
    '\x7b' :: ((Node.quoted "label").toList ++ ':' :: ((Node.quoted o.label).toList ++
      ',' :: ((Node.quoted "value").toList ++ ':' ::
        ((Node.quoted o.value).toList ++ ['\x7d'])))) := by
  simp [Choice.toNode, Node.text, Node.membersText]

/-- An entity in the text of a choice is one in its label or in its value. -/
theorem infix_of_infix_choice {word : List Char} (hword : '\\' ∉ '&' :: word ∧ '"' ∉ '&' :: word)
    {o : Choice} {more : List Char} (h : '&' :: word <:+: o.toNode.text.toList ++ more) :
    '&' :: word <:+: o.label.toList ∨ '&' :: word <:+: o.value.toList ∨ '&' :: word <:+: more := by
  have hmark : '&' ∉ Node.marks := by decide
  have hopen : '&' ∉ '\x7b' :: (Node.quoted "label").toList ++ [':'] := by decide
  have hnext : '&' ∉ ',' :: (Node.quoted "value").toList ++ [':'] := by decide
  have hclose : '&' ∉ ['\x7d'] := by decide
  have hwritten : o.toNode.text.toList ++ more =
      ('\x7b' :: (Node.quoted "label").toList ++ [':']) ++ ((Node.quoted o.label).toList ++
        ((',' :: (Node.quoted "value").toList ++ [':']) ++ ((Node.quoted o.value).toList ++
          (['\x7d'] ++ more)))) := by
    rw [text_toNode]
    simp
  rw [hwritten] at h
  refine (Node.infix_of_infix_quoted hword hmark (infix_of_infix_append hopen h)).imp_right
    fun h => ?_
  exact (Node.infix_of_infix_quoted hword hmark (infix_of_infix_append hnext h)).imp_right
    (infix_of_infix_append hclose)

theorem itemsText_cons (o : Choice) (rest : List Choice) :
    (Node.itemsText ((o :: rest).map Choice.toNode)).toList =
      o.toNode.text.toList ++ ((if rest = [] then [] else [',']) ++
        (Node.itemsText (rest.map Choice.toNode)).toList) := by
  cases rest <;> simp [Node.itemsText]

theorem exists_of_infix_items {word : List Char}
    (hword : '\\' ∉ '&' :: word ∧ '"' ∉ '&' :: word) {more : List Char}
    (h : '&' :: word <:+: (Node.itemsText (choices.map Choice.toNode)).toList ++ more) :
    (∃ o ∈ choices, '&' :: word <:+: o.label.toList ∨ '&' :: word <:+: o.value.toList) ∨
      '&' :: word <:+: more := by
  induction choices with
  | nil => exact .inr h
  | cons o rest ih =>
    have hcomma : '&' ∉ if rest = [] then [] else [','] := by
      split <;> decide
    rw [itemsText_cons, List.append_assoc, List.append_assoc] at h
    rcases infix_of_infix_choice hword h with hlabel | hvalue | hmore
    · exact .inl ⟨o, List.mem_cons_self, .inl hlabel⟩
    · exact .inl ⟨o, List.mem_cons_self, .inr hvalue⟩
    · exact (ih (infix_of_infix_append hcomma hmore)).imp_left fun ⟨p, hp, hin⟩ =>
        ⟨p, List.mem_cons_of_mem o hp, hin⟩

/-- The text of choices holds an entity only in a label or in a value. -/
theorem not_holdsEntity_text (h : ∀ o ∈ choices, o.StaysEncoded) :
    ¬ Entity.HoldsEntity (choicesNode choices).text.toList := by
  rintro ⟨⟨name, c⟩, hentity, hin⟩
  obtain ⟨word, hname, hword⟩ : ∃ word, name.toList = '&' :: word ∧
      '\\' ∉ '&' :: word ∧ '"' ∉ '&' :: word := by
    simp only [Entity.table, List.mem_cons, Prod.mk.injEq, List.not_mem_nil, or_false] at hentity
    rcases hentity with ⟨rfl, -⟩ | ⟨rfl, -⟩ | ⟨rfl, -⟩ | ⟨rfl, -⟩ | ⟨rfl, -⟩ <;>
      exact ⟨_, rfl, by decide⟩
  have hwritten : (choicesNode choices).text.toList =
      ['['] ++ ((Node.itemsText (choices.map Choice.toNode)).toList ++ [']']) := by
    simp [choicesNode, Node.text]
  have hopen : '&' ∉ ['['] := by decide
  have hclose : '&' ∉ [']'] := by decide
  rw [show (name, c).1 = name from rfl, hname, hwritten] at hin
  rcases exists_of_infix_items hword (infix_of_infix_append hopen hin) with ⟨o, ho, hin⟩ | hin
  · rw [← hname] at hin
    rcases hin with hlabel | hvalue
    · exact (h o ho).1.entity ⟨_, hentity, hlabel⟩
    · exact (h o ho).2.entity ⟨_, hentity, hvalue⟩
  · have hnil : '&' :: word <:+: [] := @infix_of_infix_append word '&' [']'] [] hclose hin
    cases List.infix_nil.1 hnil

/-- No label and no value ends the attribute. -/
theorem notMem_choices (h : ∀ o ∈ choices, o.StaysEncoded) :
    '\'' ∉ (encodeChoices (choicesNode choices)).toList := by
  refine notMem_encodeChoices (.inr rfl) (.array fun n hn => ?_)
  obtain ⟨o, ho, rfl⟩ := List.mem_map.1 hn
  exact lacks_choice (.inr rfl) (h o ho).1.apostrophe (h o ho).2.apostrophe

/-! ## Choices are read back -/

theorem toList_encodeChoices (n : Node) :
    (encodeChoices n).toList = Entity.quotesEncoded n.text.toList := by
  rw [encodeChoices, replace, String.toList_ofList]
  rfl

theorem decode_encodeChoices (n : Node) :
    Entity.decode (encodeChoices n) = Entity.decode n.text := by
  rw [Entity.decode, Entity.decode, toList_encodeChoices, Entity.decodeChars_quotesEncoded]

theorem itemNumbers_choices (choices : List Choice) :
    Node.itemNumbers (choices.map Choice.toNode) = [] := by
  induction choices with
  | nil => rfl
  | cons o rest ih =>
    rw [List.map_cons, Node.itemNumbers, ih]
    rfl

theorem itemsToNodes?_choices (depth : Nat) (choices : List Choice) :
    Written.itemsToNodes? (depth + 1) (Written.ofNodes (choices.map Choice.toNode)) =
      some (choices.map Choice.toNode) := by
  induction choices with
  | nil => rfl
  | cons o rest ih =>
    have ho : Written.toNode? (depth + 1) (Written.ofNode o.toNode) = some o.toNode := rfl
    rw [List.map_cons, Written.ofNodes, Written.itemsToNodes?, ho, ih]

/-- The text of choices is the text of their tree. -/
theorem ofText?_choices (choices : List Choice) :
    Node.ofText? (choicesNode choices).text = some (choicesNode choices) := by
  have hnumbers : (choicesNode choices).numbers = [] := itemNumbers_choices choices
  rw [Node.ofText?, Written.ofText?_text (by simp [hnumbers]), Option.bind_some, choicesNode,
    Written.ofNode, Written.maxDepth, Written.toNode?, itemsToNodes?_choices, Option.map_some]

theorem choice?_toNode {o : Choice} (h : o.IsUsable) : choice? o.toNode = some o := by
  have hlabel : memberText o.toNode "label" = o.label := rfl
  have hvalue : memberText o.toNode "value" = o.value := rfl
  have hobject : o.toNode.isObject = true := rfl
  simp only [choice?, hobject, if_true, hlabel, hvalue]
  exact if_neg (by rwa [Bool.and_eq_true, decide_eq_true_eq, decide_eq_true_eq, not_and_or])

/-- What is read where choices were written. None are read where none were written. -/
def given (choices : List Choice) : Option (List Choice) :=
  if choices = [] then none else some choices

theorem readChoices_encodeChoices (husable : ∀ o ∈ choices, o.IsUsable)
    (h : ∀ o ∈ choices, o.StaysEncoded) :
    readChoices (encodeChoices (choicesNode choices)) = .ok (given choices) := by
  have hchoices : (choices.map Choice.toNode).filterMap choice? = choices := by
    rw [List.filterMap_map]
    exact (List.filterMap_congr fun o ho => choice?_toNode (husable o ho)).trans
      List.filterMap_some
  have hdecoded : Entity.decode (encodeChoices (choicesNode choices)) =
      (choicesNode choices).text := by
    rw [decode_encodeChoices, Entity.decode,
      Entity.decodeChars_of_not_holdsEntity (not_holdsEntity_text h), String.ofList_toList]
  rw [readChoices, hdecoded, ofText?_choices]
  simp only [choicesNode, hchoices]
  cases choices <;> rfl

/-! ## Choices in a tag -/

/-- A tag with choices behind its other attributes. -/
def withOptions (head : TagHead) (choices : List Choice) : TagHead :=
  { head with
    attributes := head.attributes ++
      [⟨"options", .single, encodeChoices (choicesNode choices)⟩] }

/-- What is read as the choices of the first tag of a text. -/
def firstChoices? (path : String) (markup : List Char) :
    Option (Except Declaration.ChoicesError (Option (List Choice))) :=
  (fieldTags markup).head?.map fun t => Declaration.readOptions path (t.attributes.get? "options")

theorem isSound_withOptions {head : TagHead} (hhead : head.IsSound)
    (h : ∀ o ∈ choices, o.StaysEncoded) : (withOptions head choices).IsSound := by
  refine ⟨hhead.group, fun a ha => ?_, hhead.gap⟩
  rcases List.mem_append.1 ha with ha | ha
  · exact hhead.attributes a ha
  · obtain rfl := List.mem_singleton.1 ha
    have hname : QuotedAttribute.IsSound ⟨"options", .single, ""⟩ := by decide
    exact ⟨hname.nonempty, hname.name, notMem_choices h⟩

theorem encodeChoices_ne_empty (choices : List Choice) :
    encodeChoices (choicesNode choices) ≠ "" := by
  obtain ⟨more, htext⟩ : ∃ more, (choicesNode choices).text.toList = '[' :: more :=
    ⟨(Node.itemsText (choices.map Choice.toNode)).toList ++ [']'], by simp [choicesNode, Node.text]⟩
  have hencoded := toList_encodeChoices (choicesNode choices)
  rw [htext, Entity.quotesEncoded_cons (by decide)] at hencoded
  intro hempty
  rw [hempty] at hencoded
  cases hencoded

theorem get?_options (head : TagHead) (choices : List Choice) :
    (withOptions head choices).pairs.get? "options" =
      some (encodeChoices (choicesNode choices)) := by
  have hraw : (withOptions head choices).pairs.raw? "options" =
      some (encodeChoices (choicesNode choices)) := by
    simp [Attributes.raw?, TagHead.pairs, withOptions]
  rw [Attributes.get?, hraw, Option.filter_some, if_pos]
  exact decide_eq_true (encodeChoices_ne_empty choices)

/-- The tag gives its choices back, whatever stands behind it. -/
theorem firstChoices?_withOptions {head : TagHead} (hhead : head.IsSound)
    (husable : ∀ o ∈ choices, o.IsUsable) (h : ∀ o ∈ choices, o.StaysEncoded) (path : String)
    (more : List Char) :
    firstChoices? path ((Content.closed (withOptions head choices)).print ++ more) =
      some (.ok (given choices)) := by
  have hsound := isSound_withOptions hhead h
  rw [firstChoices?, fieldTags_closed hsound, List.head?_cons, Option.map_some,
    attributes_closedTag hsound, get?_options, Declaration.readOptions,
    readChoices_encodeChoices husable h]

/-! ## Choices of the section for stage and pod -/

def choiceOf (pair : String × String) : Choice := ⟨pair.1, pair.2⟩

theorem choiceList_eq (pairs : List (String × String)) :
    choiceList pairs = encodeChoices (choicesNode (pairs.map choiceOf)) := by
  rw [choiceList, choicesNode, List.map_map]
  rfl

/-- A line of the section gives its choices back, whatever lines stand behind it. -/
theorem firstChoices?_layoutField {path type label placeholder : String}
    {pairs : List (String × String)} (hpath : Unquoted path) (htype : Unquoted type)
    (hlabel : Unquoted label) (hplaceholder : Unquoted placeholder)
    (husable : ∀ o ∈ pairs.map choiceOf, o.IsUsable)
    (h : ∀ o ∈ pairs.map choiceOf, o.StaysEncoded) (more : List Char) :
    firstChoices? path
        ((layoutField path type label (withChoices placeholder pairs)).toList ++ more) =
      some (.ok (given (pairs.map choiceOf))) := by
  have hattribute : IsSimple ⟨"placeholder", .single, placeholder⟩ :=
    isSimple_of_name (by decide) hplaceholder.notMem.2.1 hplaceholder.notMem.1
  have hhead := (isSound_layoutHead hpath htype hlabel (List.forall_mem_singleton.2 hattribute)).1
  have hline : (layoutField path type label (withChoices placeholder pairs)).toList =
      "    ".toList ++ (Content.closed (withOptions (layoutHead path type label
        [⟨"placeholder", .single, placeholder⟩]) (pairs.map choiceOf))).print := by
    exact toList_layoutField ((toList_withChoices placeholder pairs).trans
      (by rw [choiceList_eq]; rfl))
  have hread := firstChoices?_withOptions hhead husable h path more
  rw [firstChoices?] at hread ⊢
  rw [hline, List.append_assoc, fieldTags_text (by decide) (by rintro c ⟨⟩; rfl), hread]

end Generated

end WidgetSchema
