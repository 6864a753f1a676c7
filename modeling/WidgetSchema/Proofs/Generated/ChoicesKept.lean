-- Which choices come back from a tag. Decoding an entity and ending a value at an apostrophe both
-- take weight away, and nothing that is read weighs more than its text. So the choices that come
-- back are just those that lose no weight: no text of theirs holds an apostrophe or an entity.
import WidgetSchema.Proofs.Generated.Choices
import WidgetSchema.Proofs.Markup.Values
import WidgetSchema.Proofs.Node.TreeWeight
namespace WidgetSchema

open Text Markup

/-! ## Decoding takes weight away -/

namespace Entity

/-- A word and a character that weighs less, neither of them a part of an escape. -/
structure IsLighter (first : Char) (word : List Char) (c : Char) : Prop where
  start : first ≠ 'u' ∧ first ≠ '\\'
  plain : '\\' ∉ word
  char : c ≠ 'u' ∧ c ≠ '\\'
  lighter : charWeight c < charWeight first + weight word

variable {first c : Char} {word : List Char}

theorem textWeight_word (h : IsLighter first word c) (escaped : Bool) (rest : List Char) :
    textWeight escaped (first :: word ++ rest) =
      charWeight first + weight word + textWeight false rest := by
  rw [List.cons_append, textWeight_any h.start, textWeight_plain h.plain, Nat.add_assoc]

/-- A word that is replaced by a lighter character takes weight away, and nothing else does. -/
theorem textWeight_replaceChars (h : IsLighter first word c) (escaped : Bool) (cs : List Char) :
    textWeight escaped (replaceChars (first :: word) [c] cs) ≤ textWeight escaped cs ∧
      (first :: word <:+: cs →
        textWeight escaped (replaceChars (first :: word) [c] cs) < textWeight escaped cs) := by
  have hword : first :: word ≠ [] := List.cons_ne_nil first word
  induction hn : cs.length using Nat.strongRecOn generalizing cs escaped with
  | _ n ih =>
    cases cs with
    | nil =>
      rw [replaceChars_nil hword]
      exact ⟨Nat.le_refl _, fun hin => absurd (List.infix_nil.1 hin) hword⟩
    | cons d cs =>
      by_cases hp : first :: word <+: d :: cs
      · obtain ⟨rest, hrest⟩ := hp
        have hlength : rest.length < n := by
          rw [← hn, ← hrest, List.cons_append, List.length_cons, List.length_append]
          omega
        have hlt : textWeight escaped (replaceChars (first :: word) [c] (d :: cs)) <
            textWeight escaped (d :: cs) := by
          rw [← hrest, replaceChars_word hword, List.singleton_append, textWeight_any h.char,
            textWeight_word h]
          exact Nat.add_lt_add_of_lt_of_le h.lighter (ih _ hlength false rest rfl).1
        exact ⟨Nat.le_of_lt hlt, fun _ => hlt⟩
      · have hlength : cs.length < n := by
          rw [← hn]
          exact Nat.lt_succ_self _
        have hlater := ih _ hlength (!escaped && d == '\\') cs rfl
        rw [replaceChars_cons hword hp, textWeight, textWeight]
        exact ⟨Nat.add_le_add_left hlater.1 _, fun hin =>
          Nat.add_lt_add_left (hlater.2 ((List.infix_cons_iff.1 hin).resolve_left hp)) _⟩

theorem exists_of_mem_table {name s : String} (h : (name, s) ∈ table) :
    ∃ word c, name.toList = '&' :: word ∧ s.toList = [c] ∧ IsLighter '&' word c := by
  simp only [table, List.mem_cons, Prod.mk.injEq, List.not_mem_nil, or_false] at h
  rcases h with ⟨rfl, rfl⟩ | ⟨rfl, rfl⟩ | ⟨rfl, rfl⟩ | ⟨rfl, rfl⟩ | ⟨rfl, rfl⟩ <;>
    exact ⟨_, _, rfl, rfl, by decide, by decide, by decide, by decide⟩

theorem textWeight_foldl {entities : List (String × String)} (hentities : entities ⊆ table)
    (cs : List Char) :
    textWeight false
        (entities.foldl (fun cs (name, c) => replaceChars name.toList c.toList cs) cs) ≤
      textWeight false cs ∧
      ((∃ p ∈ entities, p.1.toList <:+: cs) → textWeight false
          (entities.foldl (fun cs (name, c) => replaceChars name.toList c.toList cs) cs) <
        textWeight false cs) := by
  induction entities generalizing cs with
  | nil => exact ⟨Nat.le_refl _, fun ⟨_, hp, _⟩ => absurd hp List.not_mem_nil⟩
  | cons p rest ih =>
    obtain ⟨name, s⟩ := p
    obtain ⟨word, c, hname, hs, hlighter⟩ := exists_of_mem_table (hentities List.mem_cons_self)
    have hlater := ih (fun q hq => hentities (List.mem_cons_of_mem _ hq))
      (replaceChars name.toList s.toList cs)
    have hfirst := textWeight_replaceChars hlighter false cs
    rw [← hname, ← hs] at hfirst
    refine ⟨Nat.le_trans hlater.1 hfirst.1, fun hholds => ?_⟩
    by_cases hin : name.toList <:+: cs
    · exact Nat.lt_of_le_of_lt hlater.1 (hfirst.2 hin)
    · -- Nothing is decoded here, so what is to be decoded is still there.
      have hsame : replaceChars name.toList s.toList cs = cs := replaceChars_of_absent hin
      rw [hsame] at hlater
      obtain ⟨q, hq, hqin⟩ := hholds
      rcases List.mem_cons.1 hq with rfl | hq
      · exact absurd hqin hin
      · simp only [List.foldl_cons, hsame]
        exact hlater.2 ⟨q, hq, hqin⟩

/-- Decoding takes weight away just where there is something to decode. -/
theorem textWeight_decodeChars (cs : List Char) :
    textWeight false (decodeChars cs) ≤ textWeight false cs ∧
      (HoldsEntity cs → textWeight false (decodeChars cs) < textWeight false cs) :=
  textWeight_foldl (fun _ hp => hp) cs

/-! ## Apostrophes of encoded text -/

variable {cs : List Char}

theorem notMem_quotesEncoded (cs : List Char) : '"' ∉ quotesEncoded cs := by
  induction cs with
  | nil =>
    rw [quotesEncoded, replaceChars_nil (by decide)]
    exact List.not_mem_nil
  | cons c cs ih =>
    by_cases hc : c = '"'
    · rw [hc, quotesEncoded_quote, List.mem_append, not_or]
      exact ⟨by decide, ih⟩
    · rw [quotesEncoded_cons hc, List.mem_cons, not_or]
      exact ⟨Ne.symm hc, ih⟩

/-- No entity for a quote holds an apostrophe. -/
theorem exists_of_quotesEncoded_eq {before after : List Char}
    (h : quotesEncoded cs = before ++ '\'' :: after) :
    ∃ xs ys, cs = xs ++ '\'' :: ys ∧ before = quotesEncoded xs ∧ after = quotesEncoded ys := by
  induction cs generalizing before with
  | nil =>
    rw [quotesEncoded, replaceChars_nil (by decide)] at h
    simp at h
  | cons c cs ih =>
    by_cases hc : c = '"'
    · rw [hc, quotesEncoded_quote] at h
      obtain ⟨rest, rfl, hrest⟩ := exists_of_append_eq (by decide) h
      obtain ⟨xs, ys, rfl, rfl, rfl⟩ := ih hrest
      exact ⟨'"' :: xs, ys, by rw [hc, List.cons_append], (quotesEncoded_quote xs).symm, rfl⟩
    · rw [quotesEncoded_cons hc] at h
      rcases before with _ | ⟨d, before⟩
      · obtain ⟨rfl, rfl⟩ := List.cons.inj h
        exact ⟨[], cs, rfl, by rw [quotesEncoded, replaceChars_nil (by decide)], rfl⟩
      · obtain ⟨rfl, hrest⟩ := List.cons.inj h
        obtain ⟨xs, ys, rfl, rfl, rfl⟩ := ih hrest
        exact ⟨c :: xs, ys, rfl, (quotesEncoded_cons hc xs).symm, rfl⟩

/-- A value in encoded text is the encoded text between two apostrophes. -/
theorem exists_of_standsQuoted {value : List Char} (h : StandsQuoted value (quotesEncoded cs)) :
    ∃ before part after, '\'' ∉ part ∧ cs = before ++ '\'' :: (part ++ '\'' :: after) ∧
      value = quotesEncoded part := by
  obtain ⟨quote, before, after, hquote, hvalue, hcs⟩ := h
  rcases hquote with rfl | rfl
  · exact absurd (hcs ▸ List.mem_append_right _ List.mem_cons_self) (notMem_quotesEncoded cs)
  · obtain ⟨xs, rest, rfl, -, hrest⟩ := exists_of_quotesEncoded_eq hcs
    obtain ⟨part, ys, rfl, rfl, -⟩ := exists_of_quotesEncoded_eq hrest.symm
    refine ⟨xs, part, ys, fun hmem => hvalue ?_, rfl, rfl⟩
    obtain ⟨first, last, rfl⟩ := List.append_of_mem hmem
    rw [quotesEncoded_append, quotesEncoded_cons (by decide)]
    exact List.mem_append_right _ List.mem_cons_self

end Entity

/-! ## What choices weigh -/

namespace Node

theorem weight_le_membersWeight {key : String} {t : Node} {ms : Members Node}
    (h : Members.get? key ms = some t) : t.weight ≤ membersWeight ms := by
  induction ms with
  | nil => cases h
  | cons m ms ih =>
    obtain ⟨k, x⟩ := m
    rw [Members.get?] at h
    rw [membersWeight]
    split at h
    · obtain rfl := Option.some.inj h
      omega
    · have hlater := ih h
      omega

end Node

namespace Generated

variable {choices : List Choice}

def choiceWeight (o : Choice) : Nat := weight o.label.toList + weight o.value.toList

def choicesWeight (choices : List Choice) : Nat := (choices.map choiceWeight).sum

theorem weight_choicesNode (choices : List Choice) :
    (choicesNode choices).weight = choicesWeight choices := by
  have hlabel : weight "label".toList = 0 := by decide
  have hvalue : weight "value".toList = 0 := by decide
  rw [choicesNode, Node.weight, choicesWeight]
  induction choices with
  | nil => rfl
  | cons o rest ih =>
    have ho : o.toNode.weight = weight "label".toList + weight o.label.toList +
        (weight "value".toList + weight o.value.toList + 0) := rfl
    rw [List.map_cons, List.map_cons, List.sum_cons, Node.itemsWeight, ih, ho, hlabel, hvalue,
      choiceWeight]
    omega

theorem textWeight_choices (choices : List Choice) :
    textWeight false (choicesNode choices).text.toList = choicesWeight choices := by
  have htext := Node.textWeight_text (choicesNode choices) []
  rw [List.append_nil, weight_choicesNode] at htext
  exact htext

/-- The text of a member weighs no more than the member. -/
theorem weight_memberText_le (t : Node) (key : String) :
    weight (memberText t key).toList ≤ ((t.member? key).map Node.weight).getD 0 := by
  rw [memberText]
  rcases t.member? key with _ | x
  · exact Nat.le_refl _
  · exact Node.weight_display_le x

/-- A label and a value are two members of an object. -/
theorem weight_members_le {ms : Members Node} {j k : String} (hne : j ≠ k) :
    ((Members.get? j ms).map Node.weight).getD 0 + ((Members.get? k ms).map Node.weight).getD 0 ≤
      Node.membersWeight ms := by
  induction ms with
  | nil => exact Nat.le_refl _
  | cons m ms ih =>
    obtain ⟨i, x⟩ := m
    have hone (key : String) : ((Members.get? key ms).map Node.weight).getD 0 ≤
        Node.membersWeight ms := by
      rcases hget : Members.get? key ms with _ | t
      · exact Nat.zero_le _
      · exact Node.weight_le_membersWeight hget
    have hj := hone j
    have hk := hone k
    rw [Members.get?, Members.get?, Node.membersWeight]
    by_cases hij : i = j
    · rw [if_pos hij, if_neg (hij ▸ hne), Option.map_some, Option.getD_some]
      omega
    · rw [if_neg hij]
      split
      · rw [Option.map_some, Option.getD_some]
        omega
      · omega

theorem weight_of_choice? {t : Node} {o : Choice} (h : choice? t = some o) :
    choiceWeight o ≤ t.weight := by
  unfold choice? at h
  split at h
  · rename_i hobject
    dsimp only at h
    split at h
    · cases h
    · obtain rfl := Option.some.inj h
      cases t with
      | object ms =>
        have hlabel := weight_memberText_le (.object ms) "label"
        have hvalue := weight_memberText_le (.object ms) "value"
        have hboth := @weight_members_le ms "label" "value" (by decide)
        exact Nat.le_trans (Nat.add_le_add hlabel hvalue) hboth
      | _ => cases hobject
  · cases h

theorem weight_of_choices (entries : List Node) :
    choicesWeight (entries.filterMap choice?) ≤ Node.itemsWeight entries := by
  induction entries with
  | nil => exact Nat.le_refl _
  | cons t entries ih =>
    rw [Node.itemsWeight]
    rcases hchoice : choice? t with _ | o
    · rw [List.filterMap_cons_none hchoice]
      omega
    · have ho := weight_of_choice? hchoice
      rw [List.filterMap_cons_some hchoice]
      simp only [choicesWeight, List.map_cons, List.sum_cons] at ih ⊢
      omega

/-- Choices weigh no more than the text that they are read from. -/
theorem weight_of_readChoices {raw : String} (h : readChoices raw = .ok (some choices)) :
    choicesWeight choices ≤ textWeight false (Entity.decodeChars raw.toList) := by
  unfold readChoices at h
  split at h
  · cases h
  · rename_i entries hentries
    have hweight := Node.weight_of_ofText? hentries
    rw [Entity.decode, String.toList_ofList] at hweight
    have hchoices := weight_of_choices entries
    split at h
    · cases h
    · rename_i c cs hcs
      obtain rfl := Option.some.inj (Except.ok.inj h)
      rw [hcs] at hchoices
      exact Nat.le_trans hchoices hweight
  · cases h

/-! ## Choices that come back -/

/-- The tag with nothing but choices is encoded text. -/
theorem print_withOptions (choices : List Choice) :
    (Content.closed (withOptions {} choices)).print =
      Entity.quotesEncoded ((fieldOpen ++ " options=".toList) ++
        '\'' :: ((choicesNode choices).text.toList ++ '\'' :: ['/', '>'])) := by
  have hsplit (front text last : List Char) :
      Entity.quotesEncoded (front ++ '\'' :: (text ++ '\'' :: last)) =
        Entity.quotesEncoded front ++ '\'' :: (Entity.quotesEncoded text ++
          '\'' :: Entity.quotesEncoded last) := by
    rw [Entity.quotesEncoded_append, Entity.quotesEncoded_cons (by decide),
      Entity.quotesEncoded_append, Entity.quotesEncoded_cons (by decide)]
  have hfront : Entity.quotesEncoded (fieldOpen ++ " options=".toList) =
      fieldOpen ++ " options=".toList := replaceChars_of_absent (by decide)
  have hlast : Entity.quotesEncoded ['/', '>'] = ['/', '>'] := replaceChars_of_absent (by decide)
  have hname : " options=".toList = ' ' :: ("options".toList ++ ['=']) := by decide
  rw [hsplit, hfront, hlast, ← toList_encodeChoices, hname]
  simp [Content.print, withOptions, groupText, TagHead.print, QuotedAttribute.print, Quote.char]

theorem exists_of_firstChoices? {path : String} {markup : List Char}
    (h : firstChoices? path markup = some (.ok (some choices))) :
    ∃ raw, StandsQuoted raw.toList markup ∧ readChoices raw = .ok (some choices) := by
  obtain ⟨t, ht, hread⟩ := Option.map_eq_some_iff.1 h
  have hattrs := infix_of_mem_fieldTags (List.mem_of_mem_head? ht)
  unfold Declaration.readOptions at hread
  split at hread
  · cases hread
  · rename_i raw hraw
    split at hread
    · rename_i cs hcs
      obtain rfl := Except.ok.inj hread
      exact ⟨raw, (Attributes.standsQuoted_of_get? hraw).within hattrs, hcs⟩
    · cases hread

/-- Where the choices of the tag come back, nothing in their text is lost: no apostrophe ends it,
and nothing in it is decoded. -/
theorem text_of_firstChoices? {path : String}
    (h : firstChoices? path (Content.closed (withOptions {} choices)).print =
      some (.ok (some choices))) :
    '\'' ∉ (choicesNode choices).text.toList ∧
      ¬ Entity.HoldsEntity (choicesNode choices).text.toList := by
  obtain ⟨raw, hstands, hchoices⟩ := exists_of_firstChoices? h
  rw [print_withOptions] at hstands
  obtain ⟨before, part, after, hpart, htext, hencoded⟩ := Entity.exists_of_standsQuoted hstands
  have hweight := weight_of_readChoices hchoices
  rw [hencoded, Entity.decodeChars_quotesEncoded] at hweight
  obtain ⟨hdecode, hlighter⟩ := Entity.textWeight_decodeChars part
  have hwhole : textWeight false before + textWeight false part + textWeight false after =
      choicesWeight choices := by
    have hsides := congrArg (textWeight false) htext
    have hfront : textWeight false (fieldOpen ++ " options=".toList) = 0 := by decide
    have hlast : textWeight false ['/', '>'] = 0 := by decide
    rw [textWeight_apostrophe, textWeight_apostrophe, textWeight_apostrophe,
      textWeight_apostrophe, textWeight_choices, hfront, hlast] at hsides
    omega
  -- All of the weight stands in the part that is read, so there is no apostrophe beside it.
  have hbefore : '\'' ∉ before := fun hmem => by
    have hpos := textWeight_pos hmem false
    omega
  have hafter : '\'' ∉ after := fun hmem => by
    have hpos := textWeight_pos hmem false
    omega
  have hfront : '\'' ∉ fieldOpen ++ " options=".toList := by decide
  obtain ⟨rest, rfl, hrest⟩ := exists_of_append_eq hfront htext
  rcases rest with _ | ⟨c, rest⟩
  · have htail := (List.cons.inj hrest).2
    obtain ⟨rfl, -, -⟩ := (List.append_cons_inj_of_notMem hpart hafter).1 htail.symm
    refine ⟨hpart, fun hholds => ?_⟩
    have hlost := hlighter hholds
    omega
  · obtain ⟨rfl, -⟩ := List.cons.inj hrest
    exact absurd (List.mem_append_right _ List.mem_cons_self) hbefore

theorem infix_quoted {word : List Char} (hword : word.flatMap Node.escapeChar = word) {s : String}
    (h : word <:+: s.toList) : word <:+: (Node.quoted s).toList := by
  obtain ⟨before, after, hs⟩ := h
  refine ⟨'"' :: before.flatMap Node.escapeChar, after.flatMap Node.escapeChar ++ ['"'], ?_⟩
  rw [Node.quoted, String.toList_ofList, ← hs]
  simp [hword]

/-- Every label and every value stands in the text of the choices. -/
theorem infix_text {o : Choice} (ho : o ∈ choices) :
    (Node.quoted o.label).toList <:+: (choicesNode choices).text.toList ∧
      (Node.quoted o.value).toList <:+: (choicesNode choices).text.toList := by
  have hitems : o.toNode.text.toList <:+: (Node.itemsText (choices.map Choice.toNode)).toList := by
    induction choices with
    | nil => cases ho
    | cons p rest ih =>
      rw [itemsText_cons]
      rcases List.mem_cons.1 ho with rfl | ho
      · exact (List.prefix_append _ _).isInfix
      · exact (ih ho).trans ((List.suffix_append _ _).trans (List.suffix_append _ _)).isInfix
  have hlist : (Node.itemsText (choices.map Choice.toNode)).toList <:+:
      (choicesNode choices).text.toList := ⟨['['], [']'], by simp [choicesNode, Node.text]⟩
  have htext := hitems.trans hlist
  rw [text_toNode] at htext
  refine ⟨List.IsInfix.trans ?_ htext, List.IsInfix.trans ?_ htext⟩
  · exact ⟨'\x7b' :: ((Node.quoted "label").toList ++ [':']),
      ',' :: ((Node.quoted "value").toList ++ ':' :: ((Node.quoted o.value).toList ++ ['\x7d'])),
      by simp⟩
  · exact ⟨'\x7b' :: ((Node.quoted "label").toList ++ ':' :: ((Node.quoted o.label).toList ++
      ',' :: ((Node.quoted "value").toList ++ [':']))), ['\x7d'], by simp⟩

theorem staysEncoded_of_text {s : String}
    (hs : (Node.quoted s).toList <:+: (choicesNode choices).text.toList)
    (h : '\'' ∉ (choicesNode choices).text.toList ∧
      ¬ Entity.HoldsEntity (choicesNode choices).text.toList) : StaysEncoded s := by
  have hentities : ∀ p ∈ Entity.table, p.1.toList.flatMap Node.escapeChar = p.1.toList := by decide
  constructor
  · intro hmem
    have hin : ['\''] <:+: s.toList := (List.singleton_infix_iff _ _).2 hmem
    exact h.1 (((infix_quoted (by decide) hin).trans hs).subset (List.mem_singleton_self _))
  · rintro ⟨p, hp, hin⟩
    exact h.2 ⟨p, hp, (infix_quoted (hentities p hp) hin).trans hs⟩

/-- Choices come back from every tag just where no label and no value holds an apostrophe or an
entity. Where one does, they do not even come back from the tag with nothing but choices. -/
theorem choices_come_back_where_no_text_holds_an_apostrophe_or_an_entity
    (husable : ∀ o ∈ choices, o.IsUsable) :
    (∀ head : TagHead, head.IsSound → ∀ path more,
        firstChoices? path ((Content.closed (withOptions head choices)).print ++ more) =
          some (.ok (given choices))) ↔
      ∀ o ∈ choices, o.StaysEncoded := by
  constructor
  · intro h o ho
    have hback := h {} (by decide) "" []
    rw [List.append_nil, given, if_neg (List.ne_nil_of_mem ho)] at hback
    have htext := text_of_firstChoices? hback
    obtain ⟨hlabel, hvalue⟩ := infix_text ho
    exact ⟨staysEncoded_of_text hlabel htext, staysEncoded_of_text hvalue htext⟩
  · intro h head hhead path more
    exact firstChoices?_withOptions hhead husable h path more

def podWidths : List Choice :=
  [⟨"Wrap \"pod\" & widget", "wrap"⟩, ⟨"Full <width>", "full"⟩, ⟨"", "C:\\fixed"⟩]

theorem pod_widths_come_back :
    (∀ o ∈ podWidths, o.IsUsable) ∧ ∀ head : TagHead, head.IsSound → ∀ path more,
      firstChoices? path ((Content.closed (withOptions head podWidths)).print ++ more) =
        some (.ok (some podWidths)) := by
  have husable : ∀ o ∈ podWidths, o.IsUsable := by decide
  have hstays : ∀ o ∈ podWidths, o.StaysEncoded := by decide
  exact ⟨husable, (choices_come_back_where_no_text_holds_an_apostrophe_or_an_entity husable).2
    hstays⟩

/-- An apostrophe in a label ends the list, and an entity is read as what it stands for. -/
theorem choices_do_not_always_come_back :
    Choice.IsUsable ⟨"Rock 'n' roll", "rock"⟩ ∧ Choice.IsUsable ⟨"R&amp;D", "lab"⟩ ∧
      firstChoices? "genre" (Content.closed (withOptions {} [⟨"Rock 'n' roll", "rock"⟩])).print =
        some (.error ⟨"genre", .notJson⟩) ∧
      firstChoices? "team" (Content.closed (withOptions {} [⟨"R&amp;D", "lab"⟩])).print =
        some (.ok (some [⟨"R&D", "lab"⟩])) := by
  decide +kernel

end Generated

end WidgetSchema
