-- What trees weigh. No step of the reader adds to the weight of what it has read, so a tree weighs
-- no more than the text that it is read from, and just as much as the text that it is written as.
import WidgetSchema.Proofs.Node.Weight
namespace WidgetSchema

open Text

/-! ## The characters of numbers -/

/-- The characters that numbers are written with. -/
def IsNumeral (c : Char) : Prop := isAsciiDigit c = true ∨ c ∈ ['.', '+', '-', 'e']

instance : DecidablePred IsNumeral := fun _ => instDecidableOr

theorem weightless_of_isNumeral {c : Char} (h : IsNumeral c) : charWeight c = 0 ∧ c ≠ '\\' := by
  rcases h with hdigit | hmark
  · have hrange : 48 ≤ c.toNat ∧ c.toNat ≤ 57 := by
      simpa [isAsciiDigit, Char.le_def, UInt32.le_iff_toNat_le] using hdigit
    have hne : ∀ d, d.toNat < 48 ∨ 57 < d.toNat → c ≠ d := by
      rintro d hd rfl
      omega
    refine ⟨?_, hne _ (by decide)⟩
    rw [charWeight, if_neg (hne _ (by decide)), if_neg (hne _ (by decide)), if_neg]
    exact fun hcontrol => absurd hcontrol.1 (by omega)
  · simp only [List.mem_cons, List.not_mem_nil, or_false] at hmark
    rcases hmark with rfl | rfl | rfl | rfl <;> decide

/-- A text that is written with the characters of numbers. -/
def IsNumeric (s : String) : Prop := ∀ c ∈ s.toList, IsNumeral c

instance : DecidablePred IsNumeric := fun s => List.decidableBAll IsNumeral s.toList

namespace IsNumeric

theorem append {s t : String} (hs : IsNumeric s) (ht : IsNumeric t) : IsNumeric (s ++ t) := by
  intro c hc
  rw [String.toList_append] at hc
  rcases List.mem_append.1 hc with hc | hc
  · exact hs c hc
  · exact ht c hc

theorem of_digits {cs : List Char} (h : ∀ c ∈ cs, isAsciiDigit c = true) :
    IsNumeric (String.ofList cs) := by
  intro c hc
  rw [String.toList_ofList] at hc
  exact .inl (h c hc)

theorem natural (n : Nat) : IsNumeric (toString n) := fun _ hc =>
  .inl (isAsciiDigit_of_mem_toString hc)

theorem zeros (n : Nat) : IsNumeric (Decimal.zeros n) := by
  refine of_digits fun c hc => ?_
  rw [List.eq_of_mem_replicate hc]
  rfl

theorem layout (style : Decimal.Notation) (d : Decimal.Scaled) : IsNumeric (style.layout d) := by
  have hdigits : ∀ c ∈ Nat.toDigits 10 d.digits, isAsciiDigit c = true := fun c hc =>
    Token.isAsciiDigit_of_mem_toDigits hc
  have htake (n : Nat) := of_digits fun c hc => hdigits c (List.mem_of_mem_take (i := n) hc)
  have hdrop (n : Nat) := of_digits fun c hc => hdigits c (List.mem_of_mem_drop (i := n) hc)
  unfold Decimal.Notation.layout
  dsimp only
  split
  · split
    · refine ((of_digits hdigits).append (zeros _)).append ?_
      split <;> decide
    split
    · rw [List.splitAt_eq]
      exact ((htake _).append (by decide)).append (hdrop _)
    · exact (append (by decide) (zeros _)).append (of_digits hdigits)
  · refine ((((htake 1).append ?_).append (by decide)).append ?_).append (natural _)
    · split
      · decide
      · exact append (by decide) (hdrop 1)
    · split <;> decide

theorem float (style : Decimal.Notation) (x : Float) : IsNumeric (style.text x) := by
  unfold Decimal.Notation.text
  dsimp only
  split
  · refine append (append ?_ (by decide)) ?_ <;> split <;> decide
  · refine append ?_ (layout style _)
    split <;> decide

theorem number (n : Number) : IsNumeric n.text := by
  cases n with
  | float x => exact float _ x
  | int i =>
    have htext : toString i = if 0 ≤ i then toString i.toNat else "-" ++ toString (-i).toNat :=
      Int.repr_eq_if
    rw [Number.text, htext]
    split
    · exact natural _
    · exact append (by decide) (natural _)

end IsNumeric

/-! ## Values that are read -/

namespace Written

mutual

/-- The weight of the strings in a value, names included. -/
@[simp]
def weight : Written → Nat
  | null | bool _ | number _ => 0
  | string s => (Token.string s).weight
  | array items => itemsWeight items
  | object members => membersWeight members

@[simp]
def itemsWeight : List Written → Nat
  | [] => 0
  | w :: ws => w.weight + itemsWeight ws

@[simp]
def membersWeight : List (Option String × Written) → Nat
  | [] => 0
  | (k, w) :: ws => (Token.string k).weight + w.weight + membersWeight ws

end

theorem itemsWeight_eq (ws : List Written) : itemsWeight ws = (ws.map weight).sum := by
  induction ws with
  | nil => rfl
  | cons w ws ih => rw [itemsWeight, ih, List.map_cons, List.sum_cons]

theorem membersWeight_eq (ws : List (Option String × Written)) :
    membersWeight ws = (ws.map fun m => (Token.string m.1).weight + m.2.weight).sum := by
  induction ws with
  | nil => rfl
  | cons m ws ih => rw [membersWeight, ih, List.map_cons, List.sum_cons]

@[simp] theorem itemsWeight_reverse (ws : List Written) :
    itemsWeight ws.reverse = itemsWeight ws := by
  rw [itemsWeight_eq, itemsWeight_eq, List.map_reverse, List.sum_reverse]

@[simp] theorem membersWeight_reverse (ws : List (Option String × Written)) :
    membersWeight ws.reverse = membersWeight ws := by
  rw [membersWeight_eq, membersWeight_eq, List.map_reverse, List.sum_reverse]

@[simp]
def OpenContainer.weight : OpenContainer → Nat
  | .array done => itemsWeight done
  | .object done k => membersWeight done + (Token.string k).weight

@[simp]
def outerWeight : List OpenContainer → Nat
  | [] => 0
  | c :: outer => c.weight + outerWeight outer

namespace ReadState

/-- The weight of what has been read so far. -/
@[simp]
def weight : ReadState → Nat
  | value outer | firstItem outer | firstName outer => outerWeight outer
  | name done outer => membersWeight done + outerWeight outer
  | colon done k outer => membersWeight done + (Token.string k).weight + outerWeight outer
  | after w outer => w.weight + outerWeight outer

theorem weight_of_startValue {outer : List OpenContainer} {t : Token} {st : ReadState}
    (h : startValue outer t = some st) : st.weight ≤ outerWeight outer + t.weight := by
  cases t with
  | string s =>
    obtain rfl := Option.some.inj h
    simp [Nat.add_comm]
  | null | bool | number | openArray | openObject =>
    obtain rfl := Option.some.inj h
    simp
  | closeArray | closeObject | comma | colon => cases h

/-- A step reads no more than its lexeme. -/
theorem weight_of_step {st st' : ReadState} {t : Token} (h : st.step t = some st') :
    st'.weight ≤ st.weight + t.weight := by
  unfold step at h
  split at h
  case h_1 outer t => exact weight_of_startValue h
  case h_3 outer t _ =>
    have hstart := weight_of_startValue h
    simpa using hstart
  case h_6 | h_8 | h_10 | h_15 => cases h
  all_goals
    obtain rfl := Option.some.inj h
    simp [-List.reverse_cons] <;> omega

/-- What is read from lexemes weighs no more than the lexemes. -/
theorem weight_of_foldlM {tokens : List Token} {st st' : ReadState}
    (h : tokens.foldlM step st = some st') :
    st'.weight ≤ st.weight + (tokens.map Token.weight).sum := by
  induction tokens generalizing st with
  | nil =>
    obtain rfl := Option.some.inj h
    exact Nat.le_refl _
  | cons t tokens ih =>
    obtain ⟨next, hnext, hrest⟩ := Option.bind_eq_some_iff.1 h
    have hfirst := weight_of_step hnext
    have hlater := ih hrest
    rw [List.map_cons, List.sum_cons]
    omega

end ReadState

theorem weight_of_ofText? {s : String} {w : Written} (h : ofText? s = some w) :
    w.weight ≤ textWeight false s.toList := by
  simp only [ofText?, bind, Option.bind_eq_some_iff] at h
  obtain ⟨tokens, htokens, final, hfinal, hw⟩ := h
  have hstate : final.weight = w.weight := by
    unfold ReadState.result? at hw
    split at hw
    · obtain rfl := Option.some.inj hw
      rfl
    · cases hw
  have hread := ReadState.weight_of_foldlM hfinal
  rw [hstate, ReadState.weight, outerWeight, Nat.zero_add] at hread
  exact Nat.le_trans hread (Token.weight_of_all? htokens)

end Written

/-! ## Trees -/

namespace Node

mutual

/-- The weight of the strings in a tree, names included. -/
@[simp]
def weight : Node → Nat
  | null | bool _ | number _ => 0
  | string s => WidgetSchema.weight s.toList
  | array items => itemsWeight items
  | object members => membersWeight members

@[simp]
def itemsWeight : List Node → Nat
  | [] => 0
  | x :: xs => x.weight + itemsWeight xs

@[simp]
def membersWeight : List (String × Node) → Nat
  | [] => 0
  | (k, x) :: ms => WidgetSchema.weight k.toList + x.weight + membersWeight ms

end

/-! Of members under one name only the last is kept. -/

theorem membersWeight_replace_le (key : String) (value : Node) (ms : Members Node) :
    membersWeight (Members.replace key value ms) ≤ membersWeight ms + value.weight := by
  induction ms with
  | nil => simp [Members.replace]
  | cons m ms ih =>
    obtain ⟨k, x⟩ := m
    rw [Members.replace]
    split
    · simp
      omega
    · simp
      omega

theorem membersWeight_insert (key : String) (value : Node) (ms : Members Node) :
    membersWeight (Members.insert key value ms) =
      WidgetSchema.weight key.toList + value.weight + membersWeight ms := by
  induction ms with
  | nil => rfl
  | cons m ms ih =>
    obtain ⟨k, x⟩ := m
    rw [Members.insert]
    split
    · rfl
    · simp [ih]
      omega

theorem membersWeight_ofList_le (pairs : List (String × Node)) :
    membersWeight (Members.ofList pairs) ≤ membersWeight pairs := by
  suffices hrun : ∀ acc : Members Node, membersWeight
      (pairs.foldl (fun ms p => Members.set p.1 p.2 ms) acc) ≤
        membersWeight acc + membersWeight pairs from
    Nat.le_trans (hrun []) (Nat.le_of_eq (Nat.zero_add _))
  induction pairs with
  | nil => exact fun acc => Nat.le_refl _
  | cons p pairs ih =>
    obtain ⟨k, x⟩ := p
    intro acc
    have hset : membersWeight (Members.set k x acc) ≤
        membersWeight acc + (WidgetSchema.weight k.toList + x.weight) := by
      rw [Members.set]
      split
      · have hreplace := membersWeight_replace_le k x acc
        omega
      · rw [membersWeight_insert]
        omega
    have hlater := ih (Members.set k x acc)
    simp only [List.foldl_cons, membersWeight]
    omega

end Node

namespace Written

mutual

theorem weight_of_toNode? : (w : Written) → {depth : Nat} → {t : Node} →
    toNode? depth w = some t → t.weight ≤ w.weight
  | .null, _, _, h => by
    obtain rfl := Option.some.inj h
    exact Nat.le_refl _
  | .bool _, _, _, h => by
    obtain rfl := Option.some.inj h
    exact Nat.le_refl _
  | .number _, _, _, h => by
    obtain ⟨n, -, rfl⟩ := Option.map_eq_some_iff.1 h
    exact Nat.le_refl _
  | .string _, _, _, h => by
    obtain ⟨s, rfl, rfl⟩ := Option.map_eq_some_iff.1 h
    exact Nat.le_refl _
  | .array _, 0, _, h => nomatch h
  | .array ws, depth + 1, _, h => by
    obtain ⟨xs, hxs, rfl⟩ := Option.map_eq_some_iff.1 h
    exact weight_of_itemsToNodes? ws hxs
  | .object _, 0, _, h => nomatch h
  | .object ws, depth + 1, _, h => by
    obtain ⟨ms, hms, rfl⟩ := Option.map_eq_some_iff.1 h
    exact Nat.le_trans (Node.membersWeight_ofList_le ms) (weight_of_membersToNodes? ws hms)

theorem weight_of_itemsToNodes? : (ws : List Written) → {depth : Nat} → {xs : List Node} →
    itemsToNodes? depth ws = some xs → Node.itemsWeight xs ≤ itemsWeight ws
  | [], _, _, h => by
    obtain rfl := Option.some.inj h
    exact Nat.le_refl _
  | w :: ws, _, _, h => by
    rw [itemsToNodes?] at h
    split at h
    · rename_i x xs hx hxs
      obtain rfl := Option.some.inj h
      exact Nat.add_le_add (weight_of_toNode? w hx) (weight_of_itemsToNodes? ws hxs)
    · cases h

theorem weight_of_membersToNodes? : (ws : List (Option String × Written)) → {depth : Nat} →
    {ms : List (String × Node)} → membersToNodes? depth ws = some ms →
    Node.membersWeight ms ≤ membersWeight ws
  | [], _, _, h => by
    obtain rfl := Option.some.inj h
    exact Nat.le_refl _
  | (k, w) :: ws, _, _, h => by
    unfold membersToNodes? at h
    split at h
    · rename_i k x xs hx hxs
      obtain rfl := Option.some.inj h
      exact Nat.add_le_add (Nat.add_le_add_left (weight_of_toNode? w hx) _)
        (weight_of_membersToNodes? ws hxs)
    · cases h

end

end Written

/-- A tree weighs no more than the text that it is read from. -/
theorem Node.weight_of_ofText? {s : String} {t : Node} (h : Node.ofText? s = some t) :
    t.weight ≤ textWeight false s.toList := by
  obtain ⟨w, hw, ht⟩ := Option.bind_eq_some_iff.1 h
  exact Nat.le_trans (Written.weight_of_toNode? w ht) (Written.weight_of_ofText? hw)

/-! ## The text of trees -/

namespace Node

theorem textWeight_number (n : Number) (more : List Char) :
    textWeight false (n.text.toList ++ more) = textWeight false more := by
  have hnumeric := IsNumeric.number n
  have hback : '\\' ∉ n.text.toList := fun hmem =>
    (weightless_of_isNumeral (hnumeric _ hmem)).2 rfl
  rw [textWeight_plain hback,
    weight_eq_zero fun c hc => (weightless_of_isNumeral (hnumeric c hc)).1, Nat.zero_add]

mutual

/-- The text of a tree weighs as much as the tree. -/
theorem textWeight_text : (t : Node) → (more : List Char) →
    textWeight false (t.text.toList ++ more) = t.weight + textWeight false more
  | .null, more => by
    rw [text, textWeight_plain (by decide)]
    rfl
  | .bool b, more => by
    cases b with
    | true =>
      rw [text, if_pos rfl, textWeight_plain (by decide)]
      rfl
    | false =>
      rw [text, if_neg (by decide), textWeight_plain (by decide)]
      rfl
  | .number n, more => by
    rw [text, textWeight_number, weight, Nat.zero_add]
  | .string s, more => textWeight_quoted s more
  | .array items, more => by
    have hwritten : (array items).text.toList ++ more =
        '[' :: ((itemsText items).toList ++ ']' :: more) := by
      simp [text]
    rw [hwritten, textWeight_mark (by decide), textWeight_itemsText, textWeight_mark (by decide),
      weight]
  | .object members, more => by
    have hwritten : (object members).text.toList ++ more =
        '\x7b' :: ((membersText members).toList ++ '\x7d' :: more) := by
      simp [text]
    rw [hwritten, textWeight_mark (by decide), textWeight_membersText, textWeight_mark (by decide),
      weight]

theorem textWeight_itemsText : (xs : List Node) → (more : List Char) →
    textWeight false ((itemsText xs).toList ++ more) = itemsWeight xs + textWeight false more
  | [], more => by simp [itemsText]
  | [x], more => by simp [itemsText, textWeight_text x]
  | x :: y :: xs, more => by
    have hwritten : (itemsText (x :: y :: xs)).toList ++ more =
        x.text.toList ++ ',' :: ((itemsText (y :: xs)).toList ++ more) := by
      rw [itemsText]
      simp
    have htotal : itemsWeight (x :: y :: xs) = x.weight + itemsWeight (y :: xs) := rfl
    rw [hwritten, textWeight_text, textWeight_mark (by decide), textWeight_itemsText, htotal,
      Nat.add_assoc]

theorem textWeight_membersText : (ms : List (String × Node)) → (more : List Char) →
    textWeight false ((membersText ms).toList ++ more) = membersWeight ms + textWeight false more
  | [], more => by simp [membersText]
  | [(k, x)], more => by
    have hwritten : (membersText [(k, x)]).toList ++ more =
        (quoted k).toList ++ ':' :: (x.text.toList ++ more) := by
      simp [membersText]
    rw [hwritten, textWeight_quoted, textWeight_mark (by decide), textWeight_text, membersWeight,
      membersWeight, Nat.add_zero, Nat.add_assoc]
  | (k, x) :: m :: ms, more => by
    have hwritten : (membersText ((k, x) :: m :: ms)).toList ++ more =
        (quoted k).toList ++ ':' :: (x.text.toList ++
          ',' :: ((membersText (m :: ms)).toList ++ more)) := by
      rw [membersText]
      simp
    have htotal : membersWeight ((k, x) :: m :: ms) =
        WidgetSchema.weight k.toList + x.weight + membersWeight (m :: ms) := rfl
    rw [hwritten, textWeight_quoted, textWeight_mark (by decide), textWeight_text,
      textWeight_mark (by decide), textWeight_membersText, htotal, Nat.add_assoc, Nat.add_assoc]

end

/-- What a tree leaves in markup weighs no more than the tree. -/
theorem weight_display_le (t : Node) : WidgetSchema.weight t.display.toList ≤ t.weight := by
  have htext (s : Node) : WidgetSchema.weight s.text.toList ≤ s.weight := by
    have hwritten := textWeight_text s []
    rw [List.append_nil, textWeight, Nat.add_zero] at hwritten
    exact hwritten ▸ weight_le_textWeight false _
  cases t with
  | null => exact Nat.le_refl _
  | bool b => cases b <;> exact Nat.zero_le _
  | string s => exact Nat.le_refl _
  | number n => exact htext (.number n)
  | array items => exact htext (.array items)
  | object members => exact htext (.object members)

end Node

end WidgetSchema
