-- Field tags: the places in markup where an editor component goes. A tag may belong to a
-- group, and it is closed by itself or wraps a body, which may hold further tags.
import WidgetSchema.Markup.Tag
namespace WidgetSchema.Markup

open Text

/-- A field tag with its whole text. -/
structure FieldTag where
  source : List Char
  group : Option (List Char)
  /-- The text between the name and the end of the opening tag. -/
  attrs : List Char
  /-- The body of a tag that is not closed by itself. -/
  inner : Option (List Char)
  deriving DecidableEq

/-- A piece of markup: text, or a field tag. -/
inductive Item where
  | text (cs : List Char)
  | tag (t : FieldTag)

def Item.source : Item → List Char
  | text cs => cs
  | tag t => t.source

def fieldOpen : List Char := "<tooldrawer-field".toList

def fieldClose : List Char := "</tooldrawer-field>".toList

theorem length_fieldOpen : fieldOpen.length = 17 := rfl

/-! ## Opening tags -/

def isGroupChar (c : Char) : Bool := isAsciiAlphanumeric c || c == '-'

/-- The group behind the name of a tag, and what follows it. -/
def groupPart? : List Char → Option (Option (List Char) × List Char)
  | '-' :: cs =>
    let group := cs.takeWhile isGroupChar
    if group.isEmpty then none else some (some group, cs.dropWhile isGroupChar)
  | cs => some (none, cs)

structure OpeningTag where
  group : Option (List Char)
  attrs : List Char
  selfClosed : Bool

/-- The rest of an opening tag behind its name, and what follows it. -/
def openingTag? (cs : List Char) : Option (OpeningTag × List Char) :=
  match groupPart? cs with
  | none => none
  | some (group, rest) =>
    if endsName rest then
      match cutTag .outside rest with
      | none => none
      | some (attrs, after) =>
        if attrs.getLast? = some '/' then some (⟨group, attrs.dropLast, true⟩, after)
        else some (⟨group, attrs, false⟩, after)
    else none

theorem length_groupPart? {cs rest : List Char} {group : Option (List Char)}
    (h : groupPart? cs = some (group, rest)) : rest.length ≤ cs.length := by
  unfold groupPart? at h
  split at h
  · rename_i tail
    dsimp only at h
    split at h
    · cases h
    · simp only [Option.some.injEq, Prod.mk.injEq] at h
      have := (List.dropWhile_sublist (l := tail) isGroupChar).length_le
      rw [← h.2, List.length_cons]
      omega
  · simp_all

theorem length_openingTag? {cs after : List Char} {o : OpeningTag}
    (h : openingTag? cs = some (o, after)) : o.attrs.length + after.length < cs.length := by
  unfold openingTag? at h
  split at h
  · cases h
  · rename_i group rest hg
    have h1 := length_groupPart? hg
    split at h
    · split at h
      · cases h
      · rename_i attrs tail ht
        have h2 := length_cutTag ht
        split at h
        all_goals
          simp only [Option.some.injEq, Prod.mk.injEq] at h
          obtain ⟨h3, h4⟩ := h
          subst h3 h4
        · simp only [List.length_dropLast]
          omega
        · dsimp only
          omega
    · cases h

/-! ## Bodies -/

/-- Whether a closing tag comes later. -/
def hasClose (cs : List Char) : Bool := (cutFolded Char.toLower fieldClose cs).isSome

def weaken {m n : Nat} (h : m ≤ n) (r : { r : List Char // r.length ≤ m }) :
    { r : List Char // r.length ≤ n } := ⟨r.1, Nat.le_trans r.2 h⟩

theorem lt_of_fieldOpen {cs name : List Char}
    (h : dropFolded Char.toLower fieldOpen cs = some name) : name.length < cs.length := by
  have := length_dropFolded h
  rw [length_fieldOpen] at this
  omega

theorem lt_of_openingTag? {cs after : List Char} {o : OpeningTag}
    (h : openingTag? cs = some (o, after)) : after.length < cs.length :=
  Nat.lt_of_le_of_lt (Nat.le_add_left _ _) (length_openingTag? h)

theorem length_drop_le (n : Nat) (cs : List Char) : (cs.drop n).length ≤ cs.length :=
  (List.drop_sublist n cs).length_le

/-- The text from the closing tag on that ends a body. Tags inside the body are passed over
as a whole; an opening tag that is never closed is passed over as text. -/
def fromClose? (cs : List Char) : Option { r : List Char // r.length ≤ cs.length } :=
  match cs with
  | [] => none
  | c :: rest =>
    if (dropFolded Char.toLower fieldClose (c :: rest)).isSome then some ⟨c :: rest, Nat.le_refl _⟩
    else
      match ho : dropFolded Char.toLower fieldOpen (c :: rest) with
      | none => (fromClose? rest).map (weaken (Nat.le_succ _))
      | some name =>
        have hn : name.length < (c :: rest).length := lt_of_fieldOpen ho
        if hasClose name then
          match hh : openingTag? name with
          | none => (fromClose? name).map (weaken (Nat.le_of_lt hn))
          | some (o, after) =>
            have ha : after.length < (c :: rest).length := Nat.lt_trans (lt_of_openingTag? hh) hn
            if o.selfClosed then (fromClose? after).map (weaken (Nat.le_of_lt ha))
            else
              match fromClose? after with
              | none => (fromClose? name).map (weaken (Nat.le_of_lt hn))
              | some inner =>
                have hi : (inner.1.drop fieldClose.length).length < (c :: rest).length :=
                  Nat.lt_of_le_of_lt (Nat.le_trans (length_drop_le _ _) inner.2) ha
                (fromClose? (inner.1.drop fieldClose.length)).map (weaken (Nat.le_of_lt hi))
        else none
termination_by cs.length
decreasing_by
  · exact Nat.lt_succ_self _
  · exact hn
  · exact ha
  · exact ha
  · exact hn
  · exact hi

/-- The field tag whose name has just been read, and what follows it. -/
def fieldTag? (word name : List Char) : Option (FieldTag × List Char) :=
  match openingTag? name with
  | none => none
  | some (o, after) =>
    let upTo (rest : List Char) := word ++ name.take (name.length - rest.length)
    if o.selfClosed then some (⟨upTo after, o.group, o.attrs, none⟩, after)
    else
      match fromClose? after with
      | none => none
      | some close =>
        let body := after.take (after.length - close.1.length)
        let rest := close.1.drop fieldClose.length
        some (⟨upTo rest, o.group, o.attrs, some body⟩, rest)

theorem length_fieldTag? {word name rest : List Char} {t : FieldTag}
    (h : fieldTag? word name = some (t, rest)) : rest.length < name.length := by
  unfold fieldTag? at h
  split at h
  · cases h
  · rename_i o after ho
    have h1 := length_openingTag? ho
    dsimp only at h
    split at h
    · simp only [Option.some.injEq, Prod.mk.injEq] at h
      rw [← h.2]
      omega
    · split at h
      · cases h
      · rename_i close hc
        simp only [Option.some.injEq, Prod.mk.injEq] at h
        have := close.2
        rw [← h.2, List.length_drop]
        omega

/-! ## Markup as pieces -/

def textItem (cs : List Char) : List Item := if cs.isEmpty then [] else [.text cs]

/-- The pieces of markup: the field tags that stand in no other one, and the text between
them. An opening tag that is never closed is text. -/
def items (cs : List Char) : List Item :=
  match h : cutFolded Char.toLower fieldOpen cs with
  | none => textItem cs
  | some (before, word, name) =>
    have hn : name.length < cs.length := by
      have := length_cutFolded h
      rw [length_fieldOpen] at this
      omega
    match ht : fieldTag? word name with
    | none => .text (before ++ word) :: items name
    | some (t, rest) =>
      have : rest.length < cs.length := by
        have := length_fieldTag? ht
        omega
      textItem before ++ .tag t :: items rest
termination_by cs.length

/-- The field tags of markup that stand in no other one, in order. -/
def fieldTags (cs : List Char) : List FieldTag :=
  (items cs).filterMap fun
    | .text _ => none
    | .tag t => some t

/-- A field tag with the bytes at which it starts and ends. -/
structure LocatedTag where
  start : Nat
  stop : Nat
  tag : FieldTag

/-- The field tags of pieces that start at the given byte. -/
def located : (start : Nat) → List Item → List LocatedTag
  | _, [] => []
  | start, .text cs :: rest => located (start + byteSize cs) rest
  | start, .tag t :: rest =>
    let stop := start + byteSize t.source
    ⟨start, stop, t⟩ :: located stop rest

/-- The field tags of markup with their places. -/
def scan (markup : String) : List LocatedTag := located 0 (items markup.toList)

/-! ## Tags are shorter than the markup around them -/

theorem length_of_fieldTag? {word name rest : List Char} {t : FieldTag}
    (h : fieldTag? word name = some (t, rest)) :
    t.attrs.length < name.length ∧ ∀ body, t.inner = some body → body.length < name.length := by
  unfold fieldTag? at h
  split at h
  · cases h
  · rename_i o after ho
    have h1 := length_openingTag? ho
    dsimp only at h
    split at h
    · simp only [Option.some.injEq, Prod.mk.injEq] at h
      rw [← h.1]
      refine ⟨by dsimp only; omega, ?_⟩
      intro body hb
      cases hb
    · split at h
      · cases h
      · simp only [Option.some.injEq, Prod.mk.injEq] at h
        rw [← h.1]
        refine ⟨by dsimp only; omega, ?_⟩
        intro body hb
        simp only [Option.some.injEq] at hb
        rw [← hb, List.length_take]
        omega

theorem mem_textItem {cs : List Char} {t : FieldTag} : ¬ Item.tag t ∈ textItem cs := by
  unfold textItem
  split <;> simp

theorem length_of_mem_items {cs : List Char} {t : FieldTag} (h : .tag t ∈ items cs) :
    t.attrs.length < cs.length ∧ ∀ body, t.inner = some body → body.length < cs.length := by
  fun_induction items cs with
  | case1 => exact absurd h mem_textItem
  | case2 cs before word name hc hn hf ih =>
    have h' : Item.tag t ∈ items name := by simpa using h
    obtain ⟨h1, h2⟩ := ih h'
    exact ⟨by omega, fun body hb => Nat.lt_trans (h2 body hb) hn⟩
  | case3 cs before word name hc hn tag rest hf hr ih =>
    rcases List.mem_append.1 h with h | h
    · exact absurd h mem_textItem
    · rcases List.mem_cons.1 h with h | h
      · cases h
        obtain ⟨h1, h2⟩ := length_of_fieldTag? hf
        exact ⟨by omega, fun body hb => Nat.lt_trans (h2 body hb) hn⟩
      · obtain ⟨h1, h2⟩ := ih h
        exact ⟨by omega, fun body hb => Nat.lt_trans (h2 body hb) hr⟩

theorem length_of_mem_fieldTags {cs : List Char} {t : FieldTag} (h : t ∈ fieldTags cs) :
    t.attrs.length < cs.length ∧ ∀ body, t.inner = some body → body.length < cs.length := by
  obtain ⟨item, hi, he⟩ := List.mem_filterMap.1 h
  cases item with
  | text => cases he
  | tag u =>
    simp only [Option.some.injEq] at he
    subst he
    exact length_of_mem_items hi

/-! ## Replacing tags -/

/-- The markup with the field tags that stand in no other one replaced. A tag for which there is
no new text stays as it is written. -/
def replaceTags {m : Type → Type} [Monad m] (cs : List Char)
    (new? : (t : FieldTag) → .tag t ∈ items cs → m (Option (List Char))) : m (List Char) := do
  let parts ← (items cs).attach.mapM fun ⟨item, h⟩ =>
    match item with
    | .text cs => pure cs
    | .tag t => do return (← new? t h).getD t.source
  return parts.flatten

end WidgetSchema.Markup
