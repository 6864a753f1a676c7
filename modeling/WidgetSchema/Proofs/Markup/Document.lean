-- Documents of text and field tags, tags within tags to any depth. A document that is written
-- down is read back tag by tag: no text holds the mark of a tag, and the quotes of an attribute
-- cover whatever stands in its value, so every tag ends where it was written to end.
import WidgetSchema.Proofs.Markup.Held
import WidgetSchema.Proofs.Markup.Spans
namespace WidgetSchema.Markup

open Text

/-! ## Documents -/

inductive Quote where
  | double
  | single
  deriving DecidableEq

def Quote.char : Quote → Char
  | double => '"'
  | single => '\''

/-- An attribute with the quotes that its value stands in. -/
structure QuotedAttribute where
  name : String
  quote : Quote
  value : String
  deriving DecidableEq

/-- The group and the attributes of a field tag, and the blanks in front of its end. -/
structure TagHead where
  group : Option (List Char) := none
  attributes : List QuotedAttribute := []
  gap : List Char := []
  deriving DecidableEq

/-- Text, or a field tag that is closed by itself or wraps further content. -/
inductive Content where
  | text (cs : List Char)
  | closed (head : TagHead)
  | wrapping (head : TagHead) (body : List Content)

def Content.isText : Content → Bool
  | text _ => true
  | _ => false

def TagHead.pairs (head : TagHead) : Attributes :=
  ⟨head.attributes.map fun a => (a.name, a.value)⟩

/-! ## How they are written -/

def QuotedAttribute.print (a : QuotedAttribute) : List Char :=
  ' ' :: (a.name.toList ++ '=' :: (a.quote.char :: a.value.toList ++ [a.quote.char]))

def TagHead.print (head : TagHead) : List Char :=
  head.attributes.flatMap QuotedAttribute.print ++ head.gap

mutual

def Content.print : Content → List Char
  | .text cs => cs
  | .closed head => fieldOpen ++ (groupText head.group ++ (head.print ++ ['/', '>']))
  | .wrapping head body =>
    fieldOpen ++ (groupText head.group ++ (head.print ++ '>' :: (printAll body ++ fieldClose)))

def printAll : List Content → List Char
  | [] => []
  | p :: ps => p.print ++ printAll ps

end

/-! ## What can be told apart -/

/-- A value may hold anything but the quotes that it stands in. -/
structure QuotedAttribute.IsSound (a : QuotedAttribute) : Prop where
  nonempty : a.name ≠ ""
  name : ∀ c ∈ a.name.toList, isAsciiAlphanumeric c = true ∨ c = '_' ∨ c = '-'
  value : a.quote.char ∉ a.value.toList

-- The characters of a text are looked at one by one, not all characters there are.
instance (a : QuotedAttribute) : Decidable a.IsSound :=
  letI := List.decidableBAll
    (fun c => isAsciiAlphanumeric c = true ∨ c = '_' ∨ c = '-') a.name.toList
  decidable_of_iff (a.name ≠ "" ∧
      (∀ c ∈ a.name.toList, isAsciiAlphanumeric c = true ∨ c = '_' ∨ c = '-') ∧
      a.quote.char ∉ a.value.toList)
    ⟨fun h => ⟨h.1, h.2.1, h.2.2⟩, fun h => ⟨h.nonempty, h.name, h.value⟩⟩

/-- An attribute that is read back, whatever letters and digits its name is of. -/
structure QuotedAttribute.IsReadable (a : QuotedAttribute) : Prop where
  nonempty : a.name ≠ ""
  name : ∀ c ∈ a.name.toList, Attributes.isNameChar c = true
  value : a.quote.char ∉ a.value.toList

instance (a : QuotedAttribute) : Decidable a.IsReadable :=
  letI := List.decidableBAll (fun c => Attributes.isNameChar c = true) a.name.toList
  decidable_of_iff (a.name ≠ "" ∧ (∀ c ∈ a.name.toList, Attributes.isNameChar c = true) ∧
      a.quote.char ∉ a.value.toList)
    ⟨fun h => ⟨h.1, h.2.1, h.2.2⟩, fun h => ⟨h.nonempty, h.name, h.value⟩⟩

structure TagHead.IsSound (head : TagHead) : Prop where
  group : ∀ g ∈ head.group, g ≠ [] ∧ ∀ c ∈ g, isGroupChar c = true
  attributes : ∀ a ∈ head.attributes, a.IsSound
  gap : ∀ c ∈ head.gap, isAsciiBlank c = true

instance (head : TagHead) : Decidable head.IsSound :=
  letI (g : List Char) := List.decidableBAll (fun c => isGroupChar c = true) g
  letI := List.decidableBAll (fun c => isAsciiBlank c = true) head.gap
  decidable_of_iff ((∀ g ∈ head.group, g ≠ [] ∧ ∀ c ∈ g, isGroupChar c = true) ∧
      (∀ a ∈ head.attributes, a.IsSound) ∧ ∀ c ∈ head.gap, isAsciiBlank c = true)
    ⟨fun h => ⟨h.1, h.2.1, h.2.2⟩, fun h => ⟨h.group, h.attributes, h.gap⟩⟩

mutual

/-- No text holds the opening or the closing mark of a field tag, in whatever case. -/
def Content.IsSound : Content → Prop
  | .text cs => ¬ fieldOpen <:+: cs.map Char.toLower ∧ ¬ fieldClose <:+: cs.map Char.toLower
  | .closed head => head.IsSound
  | .wrapping head body => head.IsSound ∧ AreSound body

/-- Sound content, with no text next to a text. -/
def AreSound : List Content → Prop
  | [] => True
  | p :: ps => p.IsSound ∧ (p.isText = true → ∀ q ∈ ps.head?, q.isText = false) ∧ AreSound ps

end

/-! ## Attributes are read back -/

theorem isWordChar_of_isAsciiAlphanumeric {c : Char} (h : isAsciiAlphanumeric c = true) :
    isWordChar c = true := by
  simp only [isAsciiAlphanumeric, isAsciiDigit, isAsciiLetter, Bool.or_eq_true, Bool.and_eq_true,
    decide_eq_true_eq] at h
  have hascii : c.toNat < 0x80 := by
    simp only [Char.le_def, UInt32.le_iff_toNat_le] at h
    have hval : c.toNat = c.val.toNat := rfl
    have hz : 'z'.val.toNat = 122 := rfl
    have hZ : 'Z'.val.toNat = 90 := rfl
    have h9 : '9'.val.toNat = 57 := rfl
    omega
  rw [isWordChar, if_pos hascii]
  simp only [Bool.or_eq_true, Bool.and_eq_true, decide_eq_true_eq]
  grind

theorem QuotedAttribute.IsSound.isReadable {a : QuotedAttribute} (h : a.IsSound) :
    a.IsReadable := by
  refine ⟨h.nonempty, fun c hc => ?_, h.value⟩
  rw [Attributes.isNameChar, Bool.or_eq_true]
  rcases h.name c hc with hletter | rfl | rfl
  · exact .inl (isWordChar_of_isAsciiAlphanumeric hletter)
  · exact .inl (by decide)
  · exact .inr (by decide)

theorem upTo?_quoted {quote : Char} {value : List Char} (h : quote ∉ value) (more : List Char) :
    Attributes.upTo? quote (value ++ quote :: more) = some (value, more) := by
  have hvalue : ∀ c ∈ value, decide (c ≠ quote) = true := by
    intro c hc
    exact decide_eq_true (ne_of_mem_of_not_mem hc h)
  rw [Attributes.upTo?, List.takeWhile_append_of_pos hvalue, List.dropWhile_append_of_pos hvalue,
    List.takeWhile_cons_of_neg (by simp), List.dropWhile_cons_of_neg (by simp), List.append_nil]

theorem assigned?_print (quote : Quote) {value : List Char} (h : quote.char ∉ value)
    (more : List Char) :
    Attributes.assigned? ('=' :: (quote.char :: value ++ quote.char :: more)) =
      some (value, more) := by
  cases quote with
  | double => exact upTo?_quoted h more
  | single => exact upTo?_quoted h more

theorem pairsIn_skip {c : Char} (h : Attributes.isNameChar c = false) (rest : List Char) :
    Attributes.pairsIn (c :: rest) = Attributes.pairsIn rest := by
  rw [Attributes.pairsIn, if_neg (by simp [h])]

theorem pairsIn_assigned {c : Char} {rest value tail : List Char}
    (hc : Attributes.isNameChar c = true)
    (h : Attributes.assigned? (rest.dropWhile Attributes.isNameChar) = some (value, tail)) :
    Attributes.pairsIn (c :: rest) =
      (String.ofList (c :: rest.takeWhile Attributes.isNameChar), String.ofList value) ::
        Attributes.pairsIn tail := by
  rw [Attributes.pairsIn, if_pos hc]
  dsimp only
  split
  · rename_i v t hv
    obtain ⟨rfl, rfl⟩ := Prod.mk.inj (Option.some.inj (hv.symm.trans h))
    rfl
  · rename_i hnone
    cases hnone.symm.trans h

theorem pairsIn_print {a : QuotedAttribute} (h : a.IsReadable) (more : List Char) :
    Attributes.pairsIn (a.print ++ more) = (a.name, a.value) :: Attributes.pairsIn more := by
  have hchars := h.name
  rcases hname : a.name.toList with _ | ⟨c, cs⟩
  · exact absurd (String.toList_eq_nil_iff.1 hname) h.nonempty
  rw [hname] at hchars
  have hcs : ∀ d ∈ cs, Attributes.isNameChar d = true := fun d hd =>
    hchars d (List.mem_cons_of_mem c hd)
  have hequals : ¬ Attributes.isNameChar '=' = true := by decide
  have hvalue := assigned?_print a.quote h.value more
  rw [← List.dropWhile_cons_of_neg hequals, ← List.dropWhile_append_of_pos hcs] at hvalue
  simp only [QuotedAttribute.print, hname, List.cons_append, List.append_assoc,
    List.nil_append] at hvalue ⊢
  rw [pairsIn_skip (by decide), pairsIn_assigned (hchars c List.mem_cons_self) hvalue,
    List.takeWhile_append_of_pos hcs, List.takeWhile_cons_of_neg hequals, List.append_nil, ← hname,
    String.ofList_toList, String.ofList_toList]

theorem pairsIn_prints {attributes : List QuotedAttribute} (h : ∀ a ∈ attributes, a.IsReadable)
    (more : List Char) :
    Attributes.pairsIn (attributes.flatMap QuotedAttribute.print ++ more) =
      (attributes.map fun a => (a.name, a.value)) ++ Attributes.pairsIn more := by
  induction attributes with
  | nil => rfl
  | cons a rest ih =>
    rw [List.flatMap_cons, List.append_assoc, pairsIn_print (h a List.mem_cons_self),
      ih fun b hb => h b (List.mem_cons_of_mem a hb)]
    rfl

theorem pairsIn_blank {cs : List Char} (h : ∀ c ∈ cs, isAsciiBlank c = true) :
    Attributes.pairsIn cs = [] := by
  induction cs with
  | nil => rw [Attributes.pairsIn]
  | cons c cs ih =>
    have hc : Attributes.isNameChar c = false := by
      have hblank := h c List.mem_cons_self
      simp only [isAsciiBlank, Bool.or_eq_true, beq_iff_eq] at hblank
      rcases hblank with (((rfl | rfl) | rfl) | rfl) | rfl <;> decide
    rw [pairsIn_skip hc]
    exact ih fun d hd => h d (List.mem_cons_of_mem c hd)

theorem attributes_print {head : TagHead} (h : head.IsSound) :
    Attributes.ofChars head.print = head.pairs := by
  rw [Attributes.ofChars, TagHead.pairs, TagHead.print,
    pairsIn_prints fun a ha => (h.attributes a ha).isReadable, pairsIn_blank h.gap, List.append_nil]

/-! ## Opening tags are read back -/

theorem isInert_of_isNameChar {c : Char} (h : Attributes.isNameChar c = true) : IsInert c := by
  refine ⟨?_, ?_, ?_⟩ <;> rintro rfl <;> revert h <;> decide

theorem isInert_of_isAsciiBlank {c : Char} (h : isAsciiBlank c = true) : IsInert c := by
  refine ⟨?_, ?_, ?_⟩ <;> rintro rfl <;> revert h <;> decide

theorem passes_attribute {a : QuotedAttribute} (h : a.IsReadable) : Passes a.print := by
  have hquoted : Passes (a.quote.char :: a.value.toList ++ [a.quote.char]) := by
    have hvalue := h.value
    rcases hquote : a.quote with _ | _ <;> rw [hquote] at hvalue
    · exact passes_double hvalue
    · exact passes_single hvalue
  have hname : Passes a.name.toList := passes_of_inert fun c hc =>
    isInert_of_isNameChar (h.name c hc)
  have hequals : Passes ('=' :: (a.quote.char :: a.value.toList ++ [a.quote.char])) :=
    hquoted.cons ⟨by decide, by decide, by decide⟩
  exact (hname.append hequals).cons ⟨by decide, by decide, by decide⟩

theorem passes_attributes {attributes : List QuotedAttribute}
    (h : ∀ a ∈ attributes, a.IsReadable) : Passes (attributes.flatMap QuotedAttribute.print) := by
  induction attributes with
  | nil => exact passes_nil
  | cons a rest ih =>
    rw [List.flatMap_cons]
    exact (passes_attribute (h a List.mem_cons_self)).append
      (ih fun b hb => h b (List.mem_cons_of_mem a hb))

theorem passes_head {head : TagHead} (h : head.IsSound) : Passes head.print := by
  have hgap : Passes head.gap := passes_of_inert fun c hc => isInert_of_isAsciiBlank (h.gap c hc)
  exact (passes_attributes fun a ha => (h.attributes a ha).isReadable).append hgap

/-- What follows the group ends it: a blank, or the end of the tag. -/
theorem endsName_head {head : TagHead} (h : head.IsSound) {rest : List Char}
    (hrest : endsName rest = true) : endsName (head.print ++ rest) = true := by
  rw [TagHead.print]
  rcases head.attributes with _ | ⟨a, more⟩
  · rcases hgap : head.gap with _ | ⟨c, gap⟩
    · exact hrest
    · have hblank := h.gap c (hgap ▸ List.mem_cons_self)
      simp only [isAsciiBlank, Bool.or_eq_true, beq_iff_eq] at hblank
      rcases hblank with (((rfl | rfl) | rfl) | rfl) | rfl <;> rfl
  · rfl

theorem groupPart?_head {head : TagHead} (h : head.IsSound) {rest : List Char}
    (hrest : endsName rest = true) :
    groupPart? (groupText head.group ++ (head.print ++ rest)) =
      some (head.group, head.print ++ rest) := by
  refine groupPart?_eq_some_iff.2 ⟨rfl, h.group, fun c hc => ?_⟩
  obtain ⟨tail, htail⟩ := List.head?_eq_some_iff.1 hc
  have hends := endsName_head h hrest
  rw [htail] at hends
  obtain ⟨hgroup, hdash⟩ := not_isGroupChar_of_endsName hends
  split
  · exact hgroup
  · exact hdash

theorem openingTag?_closed {head : TagHead} (h : head.IsSound) (more : List Char) :
    openingTag? (groupText head.group ++ (head.print ++ '/' :: '>' :: more)) =
      some (⟨head.group, head.print, true⟩, more) := by
  have hends : endsName ('/' :: '>' :: more) = true := rfl
  have hend : cutTag .outside ('/' :: '>' :: more) = some (['/'], more) := rfl
  simp [openingTag?, groupPart?_head h hends, endsName_head h hends, passes_head h _, hend]

/-- No attribute ends in a slash: it ends in a quote. -/
theorem getLast?_head_ne {head : TagHead} (h : head.IsSound) : head.print.getLast? ≠ some '/' := by
  intro hlast
  rw [TagHead.print, List.getLast?_append, Option.or_eq_some_iff] at hlast
  rcases hlast with hgap | ⟨-, hattribute⟩
  · exact absurd (h.gap _ (List.mem_of_getLast? hgap)) (by decide)
  · rcases hsplit : head.attributes.reverse with _ | ⟨a, before⟩
    · rw [List.reverse_eq_nil_iff.1 hsplit] at hattribute
      cases hattribute
    · rw [List.reverse_eq_cons_iff.1 hsplit, List.flatMap_append, List.flatMap_singleton,
        List.getLast?_append, QuotedAttribute.print] at hattribute
      rcases hquote : a.quote with _ | _ <;>
        simp [hquote, Quote.char, List.getLast?_cons, List.getLast?_append] at hattribute

theorem openingTag?_wrapping {head : TagHead} (h : head.IsSound) (more : List Char) :
    openingTag? (groupText head.group ++ (head.print ++ '>' :: more)) =
      some (⟨head.group, head.print, false⟩, more) := by
  have hends : endsName ('>' :: more) = true := rfl
  have hend : cutTag .outside ('>' :: more) = some ([], more) := rfl
  simp [openingTag?, groupPart?_head h hends, endsName_head h hends, passes_head h _, hend,
    getLast?_head_ne h]

/-! ## Bodies are passed over -/

theorem mark_of_text {cs : List Char} (h : Content.IsSound (.text cs)) :
    cutFolded Char.toLower fieldOpen cs = none ∧ cutFolded Char.toLower fieldClose cs = none := by
  obtain ⟨hopen, hclose⟩ : ¬ fieldOpen <:+: cs.map Char.toLower ∧
      ¬ fieldClose <:+: cs.map Char.toLower := by
    simpa only [Content.IsSound] using h
  exact ⟨(cutFolded_eq_none_iff (by decide)).2 hopen, (cutFolded_eq_none_iff (by decide)).2 hclose⟩

/-- A text without marks is passed over up to a bracket that may start one. -/
theorem closing?_text {cs more : List Char}
    (hopen : cutFolded Char.toLower fieldOpen cs = none)
    (hclose : cutFolded Char.toLower fieldClose cs = none) :
    closing? (cs ++ '<' :: more) = closing? ('<' :: more) := by
  induction cs with
  | nil => rfl
  | cons c cs ih =>
    obtain ⟨hopenHere, hopenLater⟩ := cutFolded_cons_eq_none_iff.1 hopen
    obtain ⟨hcloseHere, hcloseLater⟩ := cutFolded_cons_eq_none_iff.1 hclose
    rw [List.cons_append, closing?_of_text, ih hopenLater hcloseLater]
    · rw [← List.cons_append, dropFolded_cons_across (by decide), hcloseHere, Option.map_none]
    · rw [← List.cons_append, dropFolded_cons_across (by decide), hopenHere, Option.map_none]

theorem closing?_fieldClose (more : List Char) :
    closing? (fieldClose ++ more) = some (fieldClose ++ more) :=
  closing?_of_fieldClose (by rw [dropFolded_append_self (by decide)]; rfl)

/-- Content other than text starts with a bracket. -/
theorem head?_print {p : Content} (h : p.isText = false) : p.print.head? = some '<' := by
  cases p with
  | text => cases h
  | closed => rfl
  | wrapping => rfl

/-- What follows a text starts with a bracket, if anything follows. -/
theorem head?_printAll {ps : List Content} {more : List Char}
    (h : ∀ q ∈ ps.head?, q.isText = false) (hmore : more.head? = some '<') :
    (printAll ps ++ more).head? = some '<' := by
  cases ps with
  | nil => exact hmore
  | cons p ps =>
    rw [printAll, List.append_assoc, List.head?_append, head?_print (h p rfl), Option.some_or]

mutual

/-- The closing tag behind content is found behind it, whatever tags the content holds. -/
theorem closing?_print : (p : Content) → p.IsSound → (more : List Char) →
    (p.isText = true → more.head? = some '<') → closing? (p.print ++ more) = closing? more
  | .text cs, hp, more, hhead => by
    obtain ⟨hopen, hclose⟩ := mark_of_text hp
    obtain ⟨tail, rfl⟩ := List.head?_eq_some_iff.1 (hhead rfl)
    exact closing?_text hopen hclose
  | .closed head, hp, more, _ => by
    have hhead : head.IsSound := by simpa only [Content.IsSound] using hp
    have htag := openingTag?_closed hhead more
    simp only [Content.print, List.append_assoc, List.cons_append, List.nil_append]
    rw [closing?_of_fieldOpen (dropFolded_append_self (by decide) _), htag]
    rfl
  | .wrapping head body, hp, more, _ => by
    obtain ⟨hhead, hbody⟩ : head.IsSound ∧ AreSound body := by
      simpa only [Content.IsSound] using hp
    have htag := openingTag?_wrapping hhead (printAll body ++ (fieldClose ++ more))
    have hfound := closing?_printAll body hbody (fieldClose ++ more) rfl
    rw [closing?_fieldClose] at hfound
    simp only [Content.print, List.append_assoc, List.cons_append]
    rw [closing?_of_fieldOpen (dropFolded_append_self (by decide) _), htag]
    simp only [hfound, List.drop_left]
    rfl

theorem closing?_printAll : (ps : List Content) → AreSound ps → (more : List Char) →
    more.head? = some '<' → closing? (printAll ps ++ more) = closing? more
  | [], _, more, _ => by rw [printAll, List.nil_append]
  | p :: ps, hps, more, hhead => by
    obtain ⟨hp, hnext, hrest⟩ : p.IsSound ∧
        (p.isText = true → ∀ q ∈ ps.head?, q.isText = false) ∧ AreSound ps := by
      simpa only [AreSound] using hps
    rw [printAll, List.append_assoc,
      closing?_print p hp _ fun htext => head?_printAll (hnext htext) hhead]
    exact closing?_printAll ps hrest more hhead

end

/-! ## Tags are read back -/

/-- Field tags are those of content, in order, with what each one was written with. -/
inductive AreRead : List Content → List FieldTag → Prop
  | nil : AreRead [] []
  | text {cs : List Char} {ps : List Content} {ts : List FieldTag} :
      AreRead ps ts → AreRead (.text cs :: ps) ts
  | closed {head : TagHead} {t : FieldTag} {ps : List Content} {ts : List FieldTag} :
      t.source = (Content.closed head).print → t.group = head.group →
      t.attributes = head.pairs → t.inner = none →
      AreRead ps ts → AreRead (.closed head :: ps) (t :: ts)
  | wrapping {head : TagHead} {body : List Content} {t : FieldTag} {ps : List Content}
      {ts : List FieldTag} :
      t.source = (Content.wrapping head body).print → t.group = head.group →
      t.attributes = head.pairs → t.inner = some (printAll body) →
      AreRead body (fieldTags (printAll body)) →
      AreRead ps ts → AreRead (.wrapping head body :: ps) (t :: ts)

theorem fieldTags_nil : fieldTags [] = [] := by
  rw [fieldTags_eq]
  rfl

theorem fieldTags_fieldOpen (name : List Char) :
    fieldTags (fieldOpen ++ name) =
      match fieldTag? fieldOpen name with
      | none => fieldTags name
      | some (t, rest) => t :: fieldTags rest := by
  have hread := fieldTags_eq (fieldOpen ++ name)
  rw [cutFolded_append_self (by decide) (by decide)] at hread
  exact hread

/-- A text without marks holds no tag, and what follows it is read on its own. -/
theorem fieldTags_text {cs more : List Char} (h : cutFolded Char.toLower fieldOpen cs = none)
    (hmore : ∀ c ∈ more.head?, c = '<') : fieldTags (cs ++ more) = fieldTags more := by
  cases more with
  | nil => rw [List.append_nil, fieldTags_eq, h, fieldTags_nil]
  | cons c more =>
    obtain rfl := hmore c rfl
    rw [fieldTags_eq, cutFolded_across h (by decide), fieldTags_eq ('<' :: more)]
    rcases cutFolded Char.toLower fieldOpen ('<' :: more) with _ | ⟨before, word, name⟩ <;> rfl

mutual

theorem areRead_print : (p : Content) → p.IsSound → (ps : List Content) →
    AreRead ps (fieldTags (printAll ps)) → (p.isText = true → ∀ q ∈ ps.head?, q.isText = false) →
    AreRead (p :: ps) (fieldTags (p.print ++ printAll ps))
  | .text cs, hp, ps, hps, hnext => by
    have hmore : ∀ c ∈ (printAll ps).head?, c = '<' := by
      intro c hc
      cases ps with
      | nil => cases hc
      | cons q qs =>
        rw [printAll, List.head?_append, head?_print (hnext rfl q rfl)] at hc
        exact (Option.some.inj hc).symm
    rw [Content.print, fieldTags_text (mark_of_text hp).1 hmore]
    exact .text hps
  | .closed head, hp, ps, hps, _ => by
    have hhead : head.IsSound := by simpa only [Content.IsSound] using hp
    have htag := openingTag?_closed hhead (printAll ps)
    rw [show groupText head.group ++ (head.print ++ '/' :: '>' :: printAll ps) =
      (groupText head.group ++ (head.print ++ ['/', '>'])) ++ printAll ps by simp] at htag
    rw [Content.print, List.append_assoc, fieldTags_fieldOpen, fieldTag?_closed htag rfl]
    exact .closed rfl rfl (attributes_print hhead) rfl hps
  | .wrapping head body, hp, ps, hps, _ => by
    obtain ⟨hhead, hbody⟩ : head.IsSound ∧ AreSound body := by
      simpa only [Content.IsSound] using hp
    have htag := openingTag?_wrapping hhead (printAll body ++ (fieldClose ++ printAll ps))
    have hfound := closing?_printAll body hbody (fieldClose ++ printAll ps) rfl
    rw [closing?_fieldClose] at hfound
    rw [show groupText head.group ++ (head.print ++ '>' :: (printAll body ++ (fieldClose ++
      printAll ps))) = (groupText head.group ++ (head.print ++ ['>'])) ++ (printAll body ++
      (fieldClose ++ printAll ps)) by simp] at htag
    have hfield := @fieldTag?_wrapping fieldOpen _ _ _ _ _ htag rfl rfl hfound
    rw [show (Content.wrapping head body).print ++ printAll ps = fieldOpen ++ ((groupText head.group
      ++ (head.print ++ ['>'])) ++ (printAll body ++ (fieldClose ++ printAll ps))) by
        simp [Content.print], fieldTags_fieldOpen, hfield]
    refine .wrapping ?_ rfl (attributes_print hhead) rfl (areRead_printAll body hbody) hps
    simp [Content.print]

theorem areRead_printAll : (ps : List Content) → AreSound ps →
    AreRead ps (fieldTags (printAll ps))
  | [], _ => by
    rw [printAll, fieldTags_nil]
    exact .nil
  | p :: ps, hps => by
    obtain ⟨hp, hnext, hrest⟩ : p.IsSound ∧
        (p.isText = true → ∀ q ∈ ps.head?, q.isText = false) ∧ AreSound ps := by
      simpa only [AreSound] using hps
    rw [printAll]
    exact areRead_print p hp ps (areRead_printAll ps hrest) hnext

end

/-- A document is read back from its printed form: just its tags, each with its own group,
attributes and body, and the bodies in the same way. -/
theorem a_printed_document_is_read_back (doc : List Content) (h : AreSound doc) :
    AreRead doc ((scan (String.ofList (printAll doc))).map (·.tag)) := by
  rw [tags_of_scan, String.toList_ofList]
  exact areRead_printAll doc h

/-- Tags in a body, and the text of tags and of a closing tag in the value of an attribute. -/
def nestedDocument : List Content :=
  [.text "<p>a > b</p>".toList,
    .wrapping ⟨some "main".toList, [⟨"type", .single, "box"⟩], []⟩
      [.closed ⟨none, [⟨"path", .double, "</tooldrawer-field>"⟩], [' ']⟩,
        .text " \"/> ".toList,
        .wrapping ⟨none, [⟨"data-x", .double, "<tooldrawer-field type='y'>"⟩], []⟩ []],
    .closed ⟨some "end".toList, [], []⟩]

theorem a_nested_document_is_read_back :
    AreSound nestedDocument ∧
      AreRead nestedDocument ((scan (String.ofList (printAll nestedDocument))).map (·.tag)) := by
  have hsound : AreSound nestedDocument := by
    simp only [nestedDocument, AreSound, Content.IsSound]
    decide +kernel
  exact ⟨hsound, a_printed_document_is_read_back _ hsound⟩

end WidgetSchema.Markup
