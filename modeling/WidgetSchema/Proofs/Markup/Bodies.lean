-- Bodies of field tags. The closing tag of a body is found step by step: text is passed over
-- character by character, a tag as a whole.
import WidgetSchema.Proofs.Markup.Opening
import WidgetSchema.Proofs.Text.Folded
namespace WidgetSchema.Markup

open Text

/-- The text from the closing tag of a body on. -/
def closing? (cs : List Char) : Option (List Char) := (fromClose? cs).map (·.1)

theorem closing?_nil : closing? [] = none := by
  rw [closing?, fromClose?]
  rfl

/-- One step to the closing tag. -/
theorem closing?_cons (c : Char) (rest : List Char) :
    closing? (c :: rest) =
      if (dropFolded Char.toLower fieldClose (c :: rest)).isSome then some (c :: rest)
      else
        match dropFolded Char.toLower fieldOpen (c :: rest) with
        | none => closing? rest
        | some name =>
          if hasClose name then
            match openingTag? name with
            | none => closing? name
            | some (o, after) =>
              if o.selfClosed then closing? after
              else
                match closing? after with
                | none => closing? name
                | some inner => closing? (inner.drop fieldClose.length)
          else none := by
  have hweaken : ∀ {m n : Nat} (h : m ≤ n) (r : Option { r : List Char // r.length ≤ m }),
      (r.map (weaken h)).map (·.1) = r.map (·.1) := by
    intro m n h r
    rw [Option.map_map]
    rfl
  rw [closing?, fromClose?]
  split
  · rfl
  · split
    · rename_i hopen
      rw [hopen, hweaken]
      rfl
    · rename_i name hopen
      simp only [hopen]
      split
      · split
        · rename_i htag
          rw [htag, hweaken]
          rfl
        · rename_i o after htag
          simp only [htag]
          split
          · rw [hweaken]
            rfl
          · split
            · rename_i hnone
              rw [hweaken, show closing? after = none by rw [closing?, hnone]; rfl]
              rfl
            · rename_i inner hinner
              rw [hweaken, show closing? after = some inner.1 by rw [closing?, hinner]; rfl]
              rfl
      · rfl

/-- What is found is a part of the text, and starts with a closing tag. -/
theorem suffix_of_closing? {cs close : List Char} (h : closing? cs = some close) :
    close <:+ cs ∧ (dropFolded Char.toLower fieldClose close).isSome := by
  induction hlength : cs.length using Nat.strongRecOn generalizing cs close with
  | ind n ih =>
    subst hlength
    cases cs with
    | nil =>
      rw [closing?_nil] at h
      cases h
    | cons c rest =>
      rw [closing?_cons] at h
      -- Every other case goes on with a text that is a part of this one.
      have hnext : ∀ shorter, shorter <:+ c :: rest → shorter.length < (c :: rest).length →
          closing? shorter = some close → close <:+ c :: rest ∧ _ := fun shorter hpart hlt hrun =>
        (ih _ hlt hrun rfl).imp_left (·.trans hpart)
      split at h
      · rename_i hclose
        obtain rfl := Option.some.inj h
        exact ⟨List.suffix_rfl, hclose⟩
      split at h
      · exact hnext rest (List.suffix_cons c rest) (Nat.lt_succ_self _) h
      · rename_i name hopen
        have hlt := lt_of_fieldOpen hopen
        obtain ⟨found, hfound, -⟩ := dropFolded_eq_some_iff.1 hopen
        have hname : name <:+ c :: rest := ⟨found, hfound.symm⟩
        split at h
        · split at h
          · exact hnext name hname hlt h
          · rename_i o after htag
            have hafter : after <:+ name := suffix_of_openingTag? htag
            have hshort := Nat.lt_trans (lt_of_openingTag? htag) hlt
            split at h
            · exact hnext after (hafter.trans hname) hshort h
            · split at h
              · exact hnext name hname hlt h
              · rename_i inner hinner
                have hrest : inner.drop fieldClose.length <:+ after :=
                  (List.drop_suffix _ _).trans (ih _ hshort hinner rfl).1
                refine hnext _ (hrest.trans (hafter.trans hname)) ?_ h
                exact Nat.lt_of_le_of_lt hrest.length_le hshort
        · cases h

theorem hasClose_append (before : List Char) {cs : List Char} (h : hasClose cs = true) :
    hasClose (before ++ cs) = true := by
  induction before with
  | nil => exact h
  | cons c before ih =>
    obtain ⟨found, hfound⟩ := Option.isSome_iff_exists.1 ih
    rw [hasClose, List.cons_append, cutFolded]
    split
    · rfl
    · rw [hfound]
      rfl

/-- Where no closing tag comes, none is found. -/
theorem closing?_of_not_hasClose {cs : List Char} (h : hasClose cs = false) :
    closing? cs = none := by
  have hnone : cutFolded Char.toLower fieldClose cs = none := by simpa [hasClose] using h
  rw [Option.eq_none_iff_forall_ne_some]
  intro close hclose
  obtain ⟨hpart, hmark⟩ := suffix_of_closing? hclose
  rw [dropFolded_of_cutFolded (by decide) hnone hpart] at hmark
  cases hmark

/-- No text starts with both marks. -/
theorem dropFolded_fieldClose_of_fieldOpen {cs name : List Char}
    (h : dropFolded Char.toLower fieldOpen cs = some name) :
    dropFolded Char.toLower fieldClose cs = none := by
  rw [Option.eq_none_iff_forall_ne_some]
  intro rest hclose
  obtain ⟨opening, hopening, hopen⟩ := dropFolded_eq_some_iff.1 h
  obtain ⟨closing, hclosing, hclose⟩ := dropFolded_eq_some_iff.1 hclose
  have hstarts : fieldOpen <+: cs.map Char.toLower :=
    ⟨name.map Char.toLower, by rw [← hopen, ← List.map_append, ← hopening]⟩
  have hends : fieldClose <+: cs.map Char.toLower :=
    ⟨rest.map Char.toLower, by rw [← hclose, ← List.map_append, ← hclosing]⟩
  exact absurd (List.prefix_of_prefix_length_le hstarts hends (by decide)) (by decide)

theorem closing?_of_fieldClose {cs : List Char}
    (h : (dropFolded Char.toLower fieldClose cs).isSome = true) : closing? cs = some cs := by
  cases cs with
  | nil => cases h
  | cons c rest => rw [closing?_cons, if_pos h]

/-- A character at which no mark starts is passed over. -/
theorem closing?_of_text {c : Char} {rest : List Char}
    (hclose : dropFolded Char.toLower fieldClose (c :: rest) = none)
    (hopen : dropFolded Char.toLower fieldOpen (c :: rest) = none) :
    closing? (c :: rest) = closing? rest := by
  rw [closing?_cons, hclose, hopen]
  rfl

/-- The reader of a body at an opening tag. That no closing tag may come at all, which it looks up
first, makes no difference to what it finds. -/
theorem closing?_of_fieldOpen {cs name : List Char}
    (h : dropFolded Char.toLower fieldOpen cs = some name) :
    closing? cs =
      match openingTag? name with
      | none => closing? name
      | some (o, after) =>
        if o.selfClosed then closing? after
        else
          match closing? after with
          | none => closing? name
          | some inner => closing? (inner.drop fieldClose.length) := by
  cases cs with
  | nil => cases h
  | cons c rest =>
    rw [closing?_cons, dropFolded_fieldClose_of_fieldOpen h, h]
    simp only [Option.isSome_none, Bool.false_eq_true, if_false]
    split
    · rfl
    · rename_i hlater
      have hclose : hasClose name = false := Bool.eq_false_iff.2 hlater
      have hname := closing?_of_not_hasClose hclose
      rcases htag : openingTag? name with _ | ⟨o, after⟩
      · exact hname.symm
      · have hafter : closing? after = none := by
          refine closing?_of_not_hasClose (Bool.eq_false_iff.2 fun hlater => ?_)
          obtain ⟨before, hbefore⟩ := suffix_of_openingTag? htag
          have hboth := hasClose_append before hlater
          rw [hbefore, hclose] at hboth
          cases hboth
        simp [hafter, hname]

/-! ## Field tags -/

theorem take_sub_length {α : Type} (as bs : List α) :
    (as ++ bs).take ((as ++ bs).length - bs.length) = as := by
  rw [List.length_append, Nat.add_sub_cancel, List.take_left]

theorem fieldTag?_closed {word head after : List Char} {o : OpeningTag}
    (h : openingTag? (head ++ after) = some (o, after)) (ho : o.selfClosed = true) :
    fieldTag? word (head ++ after) = some (⟨word ++ head, o.group, o.attrs, none⟩, after) := by
  simp only [fieldTag?, h, ho, if_true, take_sub_length]

theorem fieldTag?_wrapping {word head body close rest : List Char} {o : OpeningTag}
    (h : openingTag? (head ++ (body ++ (close ++ rest))) = some (o, body ++ (close ++ rest)))
    (ho : o.selfClosed = false) (hlength : close.length = fieldClose.length)
    (hbody : closing? (body ++ (close ++ rest)) = some (close ++ rest)) :
    fieldTag? word (head ++ (body ++ (close ++ rest))) =
      some (⟨word ++ (head ++ (body ++ close)), o.group, o.attrs, some body⟩, rest) := by
  obtain ⟨found, hfound, hclose⟩ := Option.map_eq_some_iff.1 hbody
  have hrest : (close ++ rest).drop fieldClose.length = rest := by
    rw [← hlength, List.drop_left]
  have hsource : head ++ (body ++ (close ++ rest)) = head ++ (body ++ close) ++ rest := by
    simp only [List.append_assoc]
  rw [fieldTag?, h]
  simp only [ho, hfound, hclose, hrest, take_sub_length]
  rw [hsource, take_sub_length]
  rfl

/-- A field tag in terms of where its body ends. -/
theorem fieldTag?_eq (word name : List Char) :
    fieldTag? word name =
      match openingTag? name with
      | none => none
      | some (o, after) =>
        if o.selfClosed then
          some (⟨word ++ name.take (name.length - after.length), o.group, o.attrs, none⟩, after)
        else
          (closing? after).map fun close =>
            let rest := close.drop fieldClose.length
            (⟨word ++ name.take (name.length - rest.length), o.group, o.attrs,
              some (after.take (after.length - close.length))⟩, rest) := by
  unfold fieldTag? closing?
  rcases openingTag? name with _ | ⟨o, after⟩
  · rfl
  · dsimp only
    split
    · rfl
    · rcases fromClose? after with _ | close <;> rfl

theorem filterMap_textItem {f : Item → Option FieldTag} (hf : ∀ cs, f (.text cs) = none)
    (cs : List Char) : (textItem cs).filterMap f = [] := by
  unfold textItem
  split
  · rfl
  · rw [List.filterMap_cons_none (hf cs), List.filterMap_nil]

/-- The field tags of markup from the first opening tag on. -/
theorem fieldTags_eq (cs : List Char) :
    fieldTags cs =
      match cutFolded Char.toLower fieldOpen cs with
      | none => []
      | some (_, word, name) =>
        match fieldTag? word name with
        | none => fieldTags name
        | some (t, rest) => t :: fieldTags rest := by
  rw [fieldTags, items]
  split
  · rename_i hcut
    rw [hcut]
    exact filterMap_textItem (fun _ => rfl) cs
  · rename_i before word name hcut
    simp only [hcut]
    split
    · rename_i hnone
      rw [hnone]
      rfl
    · rename_i t rest hsome
      rw [hsome, List.filterMap_append, filterMap_textItem fun _ => rfl]
      rfl

end WidgetSchema.Markup
