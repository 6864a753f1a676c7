-- Where field tags stand. The pieces of markup, put together again, are the markup, so the bytes in
-- front of a tag are those of the pieces in front of it. A tag is written from its opening bracket to
-- its last one, and its group, its attributes and its body are parts of what is written there.
import WidgetSchema.Proofs.Checked
import WidgetSchema.Proofs.Markup.Bodies
namespace WidgetSchema

namespace Text

/-! ## Bytes -/

theorem foldl_utf8Size (n : Nat) (cs : List Char) :
    cs.foldl (fun n c => n + c.utf8Size) n = n + byteSize cs := by
  unfold byteSize
  induction cs generalizing n with
  | nil => rfl
  | cons c cs ih => rw [List.foldl_cons, List.foldl_cons, ih, ih (0 + c.utf8Size)]; omega

@[simp] theorem byteSize_nil : byteSize [] = 0 := rfl

@[simp] theorem byteSize_cons (c : Char) (cs : List Char) :
    byteSize (c :: cs) = c.utf8Size + byteSize cs := by
  rw [byteSize, List.foldl_cons, foldl_utf8Size, Nat.zero_add]

@[simp] theorem byteSize_append (as bs : List Char) :
    byteSize (as ++ bs) = byteSize as + byteSize bs := by
  rw [byteSize, List.foldl_append, foldl_utf8Size]
  rfl

theorem byteSize_pos {cs : List Char} (h : cs ≠ []) : 0 < byteSize cs := by
  cases cs with
  | nil => exact absurd rfl h
  | cons c cs =>
    have hc := c.utf8Size_pos
    rw [byteSize_cons]
    omega

/-- The bytes of a text are those of the string with its characters. -/
theorem byteSize_eq_utf8ByteSize (cs : List Char) :
    byteSize cs = (String.ofList cs).utf8ByteSize := by
  induction cs with
  | nil => rfl
  | cons c cs ih =>
    have hsplit : String.ofList (c :: cs) = String.singleton c ++ String.ofList cs := by
      rw [String.singleton_eq_ofList, ← String.ofList_append]
      rfl
    rw [byteSize_cons, ih, hsplit, String.utf8ByteSize_append, String.utf8ByteSize_singleton]

/-- Behind the first characters of a text, no character is cut in two. -/
theorem isValid_byteSize {s : String} {before after : List Char} (h : s.toList = before ++ after) :
    (⟨byteSize before⟩ : String.Pos.Raw).IsValid s := by
  have hs : s = String.ofList before ++ String.ofList after := by
    rw [← String.ofList_append, ← h, String.ofList_toList]
  have hend : (⟨byteSize before⟩ : String.Pos.Raw) = (String.ofList before).rawEndPos := by
    rw [byteSize_eq_utf8ByteSize]
    rfl
  rw [hs, hend]
  exact String.Pos.Raw.isValid_rawEndPos.append_right _

end Text

namespace Markup

open Text

/-! ## How a tag is written -/

/-- A field tag with the text that it is written as, closed by itself or around a body. -/
inductive IsWritten : FieldTag → Prop
  | closed {word attrs : List Char} {group : Option (List Char)} (hword : Spells word fieldOpen) :
    IsWritten ⟨word ++ (groupText group ++ (attrs ++ ['/', '>'])), group, attrs, none⟩
  | wrapping {word attrs body close : List Char} {group : Option (List Char)}
    (hword : Spells word fieldOpen) (hclose : Spells close fieldClose) :
    IsWritten ⟨word ++ (groupText group ++ (attrs ++ '>' :: (body ++ close))), group, attrs,
      some body⟩

theorem getLast?_of_spells {close : List Char} (h : Spells close fieldClose) :
    close.getLast? = some '>' := by
  have hlast := congrArg List.getLast? h
  rw [List.getLast?_map] at hlast
  obtain ⟨c, hc, hlower⟩ := Option.map_eq_some_iff.1 hlast
  rw [hc]
  exact congrArg some (eq_of_toLower (by decide) hlower)

variable {t : FieldTag} {cs word name rest : List Char}

namespace IsWritten

theorem opens (h : IsWritten t) :
    ∃ word rest, t.source = word ++ rest ∧ Spells word fieldOpen := by
  cases h with
  | closed hword => exact ⟨_, _, rfl, hword⟩
  | wrapping hword => exact ⟨_, _, rfl, hword⟩

theorem ends (h : IsWritten t) : t.source.getLast? = some '>' := by
  cases h with
  | closed => simp
  | wrapping hword hclose =>
    rename_i word attrs body close group
    obtain ⟨front, rfl⟩ := List.getLast?_eq_some_iff.1 (getLast?_of_spells hclose)
    refine List.getLast?_eq_some_iff.2 ⟨word ++ (groupText group ++ (attrs ++ '>' ::
      (body ++ front))), ?_⟩
    simp

theorem source_ne_nil (h : IsWritten t) : t.source ≠ [] := by
  intro hnil
  have hlast := h.ends
  rw [hnil] at hlast
  cases hlast

theorem group_in_source (h : IsWritten t) {group : List Char} (hg : t.group = some group) :
    group <:+: t.source := by
  cases h with
  | closed =>
    rename_i word attrs g hword
    obtain rfl : g = some group := hg
    exact ⟨word ++ ['-'], attrs ++ ['/', '>'], by simp [groupText]⟩
  | wrapping =>
    rename_i word attrs body close g hword hclose
    obtain rfl : g = some group := hg
    exact ⟨word ++ ['-'], attrs ++ '>' :: (body ++ close), by simp [groupText]⟩

theorem attrs_in_source (h : IsWritten t) : t.attrs <:+: t.source := by
  cases h with
  | closed =>
    rename_i word attrs group hword
    exact ⟨word ++ groupText group, ['/', '>'], by simp⟩
  | wrapping =>
    rename_i word attrs body close group hword hclose
    exact ⟨word ++ groupText group, '>' :: (body ++ close), by simp⟩

theorem inner_in_source (h : IsWritten t) {body : List Char} (hb : t.inner = some body) :
    body <:+: t.source := by
  cases h with
  | closed => cases hb
  | wrapping =>
    rename_i word attrs b close group hword hclose
    obtain rfl : b = body := Option.some.inj hb
    exact ⟨word ++ (groupText group ++ (attrs ++ ['>'])), close, by simp⟩

end IsWritten

/-- A field tag that is read is written at the start of the text, and what follows it is left. -/
theorem isWritten_of_fieldTag? (hword : Spells word fieldOpen)
    (h : fieldTag? word name = some (t, rest)) :
    word ++ name = t.source ++ rest ∧ IsWritten t := by
  rw [fieldTag?_eq] at h
  split at h
  · cases h
  rename_i o after htag
  obtain rfl := append_of_openingTag? htag
  obtain ⟨group, attrs, selfClosed⟩ := o
  cases selfClosed with
  | true =>
    obtain ⟨rfl, rfl⟩ := Prod.mk.inj (Option.some.inj h)
    have hsource : (OpeningTag.mk group attrs true).text =
        groupText group ++ (attrs ++ ['/', '>']) := rfl
    rw [take_sub_length, hsource]
    exact ⟨(List.append_assoc ..).symm, .closed hword⟩
  | false =>
    obtain ⟨close, hclose, he⟩ := Option.map_eq_some_iff.1 h
    obtain ⟨rfl, rfl⟩ := Prod.mk.inj he
    obtain ⟨⟨body, rfl⟩, hmark⟩ := suffix_of_closing? hclose
    obtain ⟨rest, hrest⟩ := Option.isSome_iff_exists.1 hmark
    obtain ⟨found, rfl, hfound⟩ := dropFolded_eq_some_iff.1 hrest
    have hlength : fieldClose.length = found.length := by rw [← hfound, List.length_map]
    have hsource : (OpeningTag.mk group attrs false).text ++ (body ++ (found ++ rest)) =
        groupText group ++ (attrs ++ '>' :: (body ++ found)) ++ rest := by
      simp [OpeningTag.text]
    simp only [hlength, List.drop_left, hsource, take_sub_length]
    exact ⟨(List.append_assoc ..).symm, .wrapping hword hfound⟩

/-! ## The pieces of markup -/

theorem source_textItem (cs : List Char) : (textItem cs).flatMap Item.source = cs := by
  unfold textItem
  split
  · rename_i hempty
    rw [List.isEmpty_iff.1 hempty]
    rfl
  · simp [Item.source]

theorem spells_of_cutFolded {before : List Char}
    (h : cutFolded Char.toLower fieldOpen cs = some (before, word, name)) :
    cs = before ++ (word ++ name) ∧ Spells word fieldOpen := by
  obtain ⟨hcs, hdrop⟩ := append_of_cutFolded h
  obtain ⟨found, hfound, hword⟩ := dropFolded_eq_some_iff.1 hdrop
  obtain rfl := List.append_cancel_right hfound
  exact ⟨by rw [hcs, List.append_assoc], hword⟩

/-- Put together again, the pieces of markup are the markup. -/
theorem source_items (cs : List Char) : (items cs).flatMap Item.source = cs := by
  fun_induction items cs with
  | case1 cs hcut => exact source_textItem cs
  | case2 cs before word name hcut hn hnone ih =>
    obtain ⟨hcs, -⟩ := spells_of_cutFolded hcut
    rw [List.flatMap_cons, ih, Item.source, hcs, List.append_assoc]
  | case3 cs before word name hcut hn t rest hfield hr ih =>
    obtain ⟨hcs, hword⟩ := spells_of_cutFolded hcut
    obtain ⟨hsource, -⟩ := isWritten_of_fieldTag? hword hfield
    rw [List.flatMap_append, List.flatMap_cons, source_textItem, ih, Item.source, hcs, hsource]

theorem isWritten_of_mem_items (h : .tag t ∈ items cs) : IsWritten t := by
  fun_induction items cs with
  | case1 => exact absurd h mem_textItem
  | case2 cs before word name hcut hn hnone ih => exact ih (by simpa using h)
  | case3 cs before word name hcut hn u rest hfield hr ih =>
    rcases List.mem_append.1 h with h | h
    · exact absurd h mem_textItem
    rcases List.mem_cons.1 h with h | h
    · obtain rfl := Item.tag.inj h
      exact (isWritten_of_fieldTag? (spells_of_cutFolded hcut).2 hfield).2
    · exact ih h

theorem mem_items_of_mem_fieldTags (h : t ∈ fieldTags cs) : .tag t ∈ items cs := by
  obtain ⟨item, hitem, htag⟩ := List.mem_filterMap.1 h
  cases item with
  | text => cases htag
  | tag u => exact Option.some.inj htag ▸ hitem

theorem infix_of_mem_items {item : Item} (h : item ∈ items cs) : item.source <:+: cs := by
  obtain ⟨first, last, hsplit⟩ := List.append_of_mem h
  refine ⟨first.flatMap Item.source, last.flatMap Item.source, ?_⟩
  rw [← source_items cs, hsplit, List.flatMap_append, List.flatMap_cons, List.append_assoc]

/-- A field tag is a part of the markup. -/
theorem source_infix_of_mem_fieldTags (h : t ∈ fieldTags cs) :
    IsWritten t ∧ t.source <:+: cs :=
  ⟨isWritten_of_mem_items (mem_items_of_mem_fieldTags h),
    infix_of_mem_items (mem_items_of_mem_fieldTags h)⟩

/-! ## Tags that are kept -/

section Replacing

variable {m : Type → Type} [Monad m]

/-- What a replacement makes of a piece of markup. -/
def replaceItem (new? : FieldTag → m (Option (List Char))) : Item → m (List Char)
  | .text cs => pure cs
  | .tag t => do return (← new? t).getD t.source

variable [LawfulMonad m]

theorem replaceTags_eq (new? : FieldTag → m (Option (List Char))) (cs : List Char) :
    (replaceTags cs fun t _ => new? t) =
      List.flatten <$> (items cs).mapM (replaceItem new?) := by
  rw [← mapM_attach, replaceTags, map_eq_pure_bind]
  congr 2
  funext ⟨item, hitem⟩
  cases item <;> rfl

/-- A replacement that has no new text for any tag leaves the markup as it is. What it does to find
that out, it does for every tag once. -/
theorem replaceTags_none (note : FieldTag → m Unit) (cs : List Char) :
    (replaceTags cs fun t _ => (fun _ => none) <$> note t) =
      (fun _ => cs) <$> (fieldTags cs).forM note := by
  have hitems (is : List Item) :
      is.mapM (replaceItem fun t => (fun _ => none) <$> note t) =
        (fun _ => is.map Item.source) <$> (is.filterMap fun
          | .text _ => none
          | .tag t => some t).forM note := by
    induction is with
    | nil => simp
    | cons item is ih => cases item <;> simp [ih, replaceItem, Item.source]
  have hflat : ((items cs).map Item.source).flatten = cs := source_items cs
  rw [replaceTags_eq, hitems, Functor.map_map]
  simp only [hflat]
  rfl

end Replacing

/-! ## Places -/

theorem exists_of_mem_located {start : Nat} {is : List Item} {l : LocatedTag}
    (h : l ∈ located start is) : ∃ first last, is = first ++ .tag l.tag :: last ∧
      l.start = start + byteSize (first.flatMap Item.source) ∧
      l.stop = l.start + byteSize l.tag.source := by
  induction is generalizing start with
  | nil => cases h
  | cons item is ih =>
    cases item with
    | text cs =>
      obtain ⟨first, last, his, hstart, hstop⟩ := ih h
      refine ⟨.text cs :: first, last, by rw [his, List.cons_append], ?_, hstop⟩
      rw [hstart, List.flatMap_cons, byteSize_append, Item.source, Nat.add_assoc]
    | tag t =>
      rcases List.mem_cons.1 h with rfl | h
      · exact ⟨[], is, rfl, rfl, rfl⟩
      · obtain ⟨first, last, his, hstart, hstop⟩ := ih h
        refine ⟨.tag t :: first, last, by rw [his, List.cons_append], ?_, hstop⟩
        rw [hstart, List.flatMap_cons, byteSize_append, Item.source, Nat.add_assoc]

theorem tags_of_located (start : Nat) (is : List Item) :
    (located start is).map (·.tag) = is.filterMap fun
      | .text _ => none
      | .tag t => some t := by
  induction is generalizing start with
  | nil => rfl
  | cons i is ih =>
    cases i with
    | text cs => exact ih _
    | tag t => exact congrArg (t :: ·) (ih _)

theorem tags_of_scan (markup : String) : (scan markup).map (·.tag) = fieldTags markup.toList :=
  tags_of_located 0 _

/-- Every tag starts where the one before it stops, or later. -/
theorem pairwise_located (start : Nat) (is : List Item) :
    (located start is).Pairwise fun a b => a.stop ≤ b.start := by
  induction is generalizing start with
  | nil => exact .nil
  | cons item is ih =>
    cases item with
    | text cs => exact ih _
    | tag t =>
      refine List.pairwise_cons.2 ⟨fun l hl => ?_, ih _⟩
      obtain ⟨first, last, -, hstart, -⟩ := exists_of_mem_located hl
      rw [hstart]
      exact Nat.le_add_right _ _

/-- A field tag stands in markup: from an opening bracket to a closing one, between two bytes at
which no character is cut in two. -/
structure StandsIn (markup : String) (l : LocatedTag) : Prop where
  inside : ∃ before after, markup.toList = before ++ (l.tag.source ++ after) ∧
    l.start = byteSize before ∧ l.stop = byteSize before + byteSize l.tag.source
  start_isValid : (⟨l.start⟩ : String.Pos.Raw).IsValid markup
  stop_isValid : (⟨l.stop⟩ : String.Pos.Raw).IsValid markup
  start_lt_stop : l.start < l.stop
  opens : ∃ word rest, l.tag.source = word ++ rest ∧ Spells word fieldOpen
  ends : l.tag.source.getLast? = some '>'
  group_in_source : ∀ group, l.tag.group = some group → group <:+: l.tag.source
  attrs_in_source : l.tag.attrs <:+: l.tag.source
  inner_in_source : ∀ body, l.tag.inner = some body → body <:+: l.tag.source

theorem standsIn_of_mem_scan {markup : String} {l : LocatedTag} (h : l ∈ scan markup) :
    StandsIn markup l := by
  obtain ⟨first, last, hsplit, hstart, hstop⟩ := exists_of_mem_located h
  have hwritten : IsWritten l.tag := by
    have hmem : .tag l.tag ∈ items markup.toList := by
      rw [hsplit]
      exact List.mem_append_right first List.mem_cons_self
    exact isWritten_of_mem_items hmem
  have hinside : markup.toList = first.flatMap Item.source ++
      (l.tag.source ++ last.flatMap Item.source) := by
    rw [← source_items markup.toList, hsplit, List.flatMap_append, List.flatMap_cons]
    rfl
  rw [Nat.zero_add] at hstart
  rw [hstart] at hstop
  have hpos := byteSize_pos hwritten.source_ne_nil
  constructor
  case inside => exact ⟨_, _, hinside, hstart, hstop⟩
  case start_isValid =>
    rw [hstart]
    exact isValid_byteSize hinside
  case stop_isValid =>
    rw [← List.append_assoc] at hinside
    rw [hstop, ← byteSize_append]
    exact isValid_byteSize hinside
  case start_lt_stop => omega
  case opens => exact hwritten.opens
  case ends => exact hwritten.ends
  case group_in_source => exact fun group => hwritten.group_in_source
  case attrs_in_source => exact hwritten.attrs_in_source
  case inner_in_source => exact fun body => hwritten.inner_in_source

/-- Whatever the markup is, its field tags stand in it one behind the other, each in one piece, and
a replacement that replaces none of them gives the markup back. -/
theorem field_tags_stand_apart_and_stay_unless_replaced (markup : String) :
    (∀ l ∈ scan markup, StandsIn markup l) ∧
      (scan markup).Pairwise (fun a b => a.stop ≤ b.start) ∧
      ∀ {m : Type → Type} [Monad m] [LawfulMonad m] (note : FieldTag → m Unit),
        (replaceTags markup.toList fun t _ => (fun _ => none) <$> note t) =
          (fun _ => markup.toList) <$> ((scan markup).map (·.tag)).forM note := by
  refine ⟨fun l hl => standsIn_of_mem_scan hl, pairwise_located 0 _, fun note => ?_⟩
  rw [replaceTags_none, tags_of_scan]

/-- A tag that spells its name in its own way, behind a text of more bytes than characters. -/
def spelledMarkup : String :=
  "é<Tooldrawer-Field-box a='x > y'>in</TOOLDRAWER-field>é"

theorem a_tag_stands_behind_two_bytes_and_stays :
    (∃ l ∈ scan spelledMarkup, l.start = 2 ∧ StandsIn spelledMarkup l) ∧
      (replaceTags spelledMarkup.toList fun _ _ =>
        (fun _ => none) <$> (modify (· + 1) : StateM Nat Unit)) =
          (fun _ => spelledMarkup.toList) <$> ((scan spelledMarkup).map (·.tag)).forM fun _ =>
            (modify (· + 1) : StateM Nat Unit) := by
  have htags : ((scan spelledMarkup).map (·.start)) = [2] := by decide +kernel
  obtain ⟨l, hl, hstart⟩ := List.mem_map.1 (htags ▸ List.mem_singleton_self 2)
  obtain ⟨hstands, -, hkept⟩ := field_tags_stand_apart_and_stay_unless_replaced spelledMarkup
  exact ⟨⟨l, hl, hstart, hstands l hl⟩, hkept fun _ => modify (· + 1)⟩

end Markup

end WidgetSchema
