-- Markup in which every field tag that is opened is closed. It is read alike wherever it stands,
-- and what stands around it is read as if it were not there, but for the body that it is in. So
-- it can be exchanged for other such markup with the same tags.
import WidgetSchema.Proofs.Markup.Within
namespace WidgetSchema.Markup

open Text

/-! ## The fields of markup -/

/-- The group and the attributes of every field tag, those of a tag in front of those of the tags
in its body. -/
def fieldsWithin (cs : List Char) : List (Option (List Char) × Attributes) :=
  (fieldTags cs).attach.flatMap fun ⟨t, ht⟩ =>
    (t.group, t.attributes) ::
      match hbody : t.inner with
      | none => []
      | some body =>
        have : body.length < cs.length := (length_of_mem_fieldTags ht).2 body hbody
        fieldsWithin body
termination_by cs.length

theorem fieldsWithin_eq (cs : List Char) :
    fieldsWithin cs = (fieldTags cs).flatMap fun t =>
      (t.group, t.attributes) :: t.inner.elim [] fieldsWithin := by
  rw [fieldsWithin]
  refine (List.flatMap_subtype fun t ht => ?_).trans (by rw [List.unattach_attach])
  dsimp only
  split <;> rename_i hbody <;> rw [hbody] <;> rfl

theorem fieldsWithin_nil : fieldsWithin [] = [] := by
  rw [fieldsWithin_eq, fieldTags_nil]
  rfl

/-- A character at which no tag starts is passed over. -/
theorem fieldsWithin_of_text {c : Char} {rest : List Char}
    (h : dropFolded Char.toLower fieldOpen (c :: rest) = none) :
    fieldsWithin (c :: rest) = fieldsWithin rest := by
  have hcut : cutFolded Char.toLower fieldOpen (c :: rest) =
      (cutFolded Char.toLower fieldOpen rest).map fun p => (c :: p.1, p.2) := by
    rw [cutFolded, h]
  have htags : fieldTags (c :: rest) = fieldTags rest := by
    rw [fieldTags_eq, hcut, fieldTags_eq rest]
    rcases cutFolded Char.toLower fieldOpen rest with _ | ⟨before, word, name⟩ <;> rfl
  rw [fieldsWithin_eq, htags, ← fieldsWithin_eq]

/-- What is read at the mark of a tag. -/
theorem fieldsWithin_of_fieldOpen {cs name : List Char}
    (h : dropFolded Char.toLower fieldOpen cs = some name) :
    fieldsWithin cs =
      match openingTag? name with
      | none => fieldsWithin name
      | some (o, after) =>
        if o.selfClosed then (o.group, Attributes.ofChars o.attrs) :: fieldsWithin after
        else
          match closing? after with
          | none => fieldsWithin name
          | some close =>
            (o.group, Attributes.ofChars o.attrs) ::
              (fieldsWithin (after.take (after.length - close.length)) ++
                fieldsWithin (close.drop fieldClose.length)) := by
  cases cs with
  | nil => cases h
  | cons c rest =>
    have hcut : cutFolded Char.toLower fieldOpen (c :: rest) =
        some ([], (c :: rest).take fieldOpen.length, name) := by
      rw [cutFolded, h]
    rw [fieldsWithin_eq, fieldTags_eq, hcut]
    simp only [fieldTag?_eq]
    rcases openingTag? name with _ | ⟨o, after⟩
    · exact (fieldsWithin_eq name).symm
    rcases hself : o.selfClosed with _ | _
    · rcases hclose : closing? after with _ | close
      · simp only [hself, hclose, Option.map_none, Bool.false_eq_true, if_false]
        exact (fieldsWithin_eq name).symm
      · simp only [hself, hclose, Option.map_some, Bool.false_eq_true, if_false, List.flatMap_cons,
          ← fieldsWithin_eq]
        rfl
    · simp only [hself, if_true, List.flatMap_cons, ← fieldsWithin_eq]
      rfl

/-! ## Markup that stands alone -/

theorem breaks_of_closing {cs : List Char}
    (h : (dropFolded Char.toLower fieldClose cs).isSome = true) : Breaks cs := by
  obtain ⟨rest, hrest⟩ := Option.isSome_iff_exists.1 h
  obtain ⟨found, rfl, hfound⟩ := dropFolded_eq_some_iff.1 hrest
  cases found with
  | nil => cases hfound
  | cons c found =>
    rw [eq_bracket_of_toLower (List.cons.inj hfound).1]
    exact breaks_of_head? (.inl rfl)

/-- Markup that the reader of a body passes over, and the field tags of which are read on their
own, whatever follows. -/
structure StandsAlone (cs : List Char) : Prop where
  closing : ∀ more, Breaks more → closing? (cs ++ more) = closing? more
  fields : ∀ more, Breaks more → fieldsWithin (cs ++ more) = fieldsWithin cs ++ fieldsWithin more

theorem standsAlone_nil : StandsAlone [] where
  closing _ _ := rfl
  fields more _ := by rw [fieldsWithin_nil, List.nil_append, List.nil_append]

theorem StandsAlone.append {as bs : List Char} (ha : StandsAlone as) (hb : StandsAlone bs)
    (hbreaks : Breaks bs) : StandsAlone (as ++ bs) where
  closing more hmore := by
    rw [List.append_assoc, ha.closing _ (hbreaks.append hmore), hb.closing _ hmore]
  fields more hmore := by
    rw [List.append_assoc, ha.fields _ (hbreaks.append hmore), hb.fields _ hmore,
      ha.fields _ hbreaks, List.append_assoc]

namespace StandsAlone

variable {c : Char} {cs name after body close : List Char} {o : OpeningTag}

/-- A character at which no mark starts may stand in front. -/
theorem text (hclose : dropFolded Char.toLower fieldClose (c :: cs) = none)
    (hopen : dropFolded Char.toLower fieldOpen (c :: cs) = none) (h : StandsAlone cs) :
    StandsAlone (c :: cs) where
  closing more hmore := by
    rw [List.cons_append, closing?_of_text, h.closing more hmore]
    · rw [dropFolded_cons_append hmore.closing, hclose, Option.map_none]
    · rw [dropFolded_cons_append hmore.opening, hopen, Option.map_none]
  fields more hmore := by
    rw [List.cons_append, fieldsWithin_of_text, fieldsWithin_of_text hopen, h.fields more hmore]
    rw [dropFolded_cons_append hmore.opening, hopen, Option.map_none]

/-- A mark of no tag is passed over. -/
theorem passed (hopen : dropFolded Char.toLower fieldOpen cs = some name)
    (htag : openingTag? name = none) (hcut : (cutTag .outside name).isSome = true)
    (h : StandsAlone name) : StandsAlone cs where
  closing more hmore := by
    rw [closing?_of_fieldOpen (dropFolded_append hopen more), openingTag?_append hcut, htag]
    exact h.closing more hmore
  fields more hmore := by
    rw [fieldsWithin_of_fieldOpen (dropFolded_append hopen more), openingTag?_append hcut,
      fieldsWithin_of_fieldOpen hopen, htag]
    exact h.fields more hmore

theorem closed (hopen : dropFolded Char.toLower fieldOpen cs = some name)
    (htag : openingTag? name = some (o, after)) (hself : o.selfClosed = true)
    (h : StandsAlone after) : StandsAlone cs where
  closing more hmore := by
    rw [closing?_of_fieldOpen (dropFolded_append hopen more),
      openingTag?_append (isSome_cutTag_of_openingTag? htag), htag]
    simp only [Option.map_some, hself, if_true]
    exact h.closing more hmore
  fields more hmore := by
    rw [fieldsWithin_of_fieldOpen (dropFolded_append hopen more),
      openingTag?_append (isSome_cutTag_of_openingTag? htag), fieldsWithin_of_fieldOpen hopen, htag]
    simp only [Option.map_some, hself, if_true, h.fields more hmore, List.cons_append]

/-- A tag with a body that stands alone. -/
theorem wrapping (hopen : dropFolded Char.toLower fieldOpen cs = some name)
    (htag : openingTag? name = some (o, body ++ close)) (hself : o.selfClosed = false)
    (hclose : (dropFolded Char.toLower fieldClose close).isSome = true) (hbody : StandsAlone body)
    (h : StandsAlone (close.drop fieldClose.length)) : StandsAlone cs := by
  obtain ⟨rest, hrest⟩ := Option.isSome_iff_exists.1 hclose
  have hlength : fieldClose.length ≤ close.length := by
    have := length_dropFolded hrest
    omega
  have hcut := isSome_cutTag_of_openingTag? htag
  have hfound (more : List Char) (hmore : Breaks more) :
      closing? (body ++ (close ++ more)) = some (close ++ more) := by
    rw [hbody.closing _ ((breaks_of_closing hclose).append hmore), closing?_of_fieldClose]
    rw [dropFolded_append hrest]
    rfl
  have hfirst := hfound [] breaks_nil
  rw [List.append_nil] at hfirst
  refine ⟨fun more hmore => ?_, fun more hmore => ?_⟩
  · rw [closing?_of_fieldOpen (dropFolded_append hopen more), openingTag?_append hcut, htag]
    simp only [Option.map_some, hself, Bool.false_eq_true, if_false, List.append_assoc,
      hfound more hmore, List.drop_append_of_le_length hlength]
    exact h.closing more hmore
  · rw [fieldsWithin_of_fieldOpen (dropFolded_append hopen more), openingTag?_append hcut,
      fieldsWithin_of_fieldOpen hopen, htag]
    simp only [Option.map_some, hself, Bool.false_eq_true, if_false, List.append_assoc,
      hfound more hmore, hfirst, take_sub_length, List.drop_append_of_le_length hlength,
      h.fields more hmore, List.cons_append]

end StandsAlone

/-! ## Balanced markup -/

/-- Whether every field tag that is opened in markup ends there, with its body if it has one, and
nothing else is closed there. -/
def isBalanced (cs : List Char) : Bool :=
  match cs with
  | [] => true
  | c :: rest =>
    match ho : dropFolded Char.toLower fieldOpen (c :: rest) with
    | none => (dropFolded Char.toLower fieldClose (c :: rest)).isNone && isBalanced rest
    | some name =>
      have hname : name.length < (c :: rest).length := lt_of_fieldOpen ho
      match ht : openingTag? name with
      | none => (cutTag .outside name).isSome && isBalanced name
      | some (o, after) =>
        have : after.length < (c :: rest).length := Nat.lt_trans (lt_of_openingTag? ht) hname
        if o.selfClosed then isBalanced after
        else
          match hc : closing? after with
          | none => false
          | some close =>
            have : close.length ≤ after.length := (suffix_of_closing? hc).1.length_le
            isBalanced (after.take (after.length - close.length)) &&
              isBalanced (close.drop fieldClose.length)
termination_by cs.length
decreasing_by
  · exact Nat.lt_succ_self _
  · exact hname
  · exact this
  · rw [List.length_take]
    omega
  · rw [List.length_drop]
    omega

/-- Balanced markup is read alike wherever it stands. -/
theorem standsAlone_of_isBalanced {cs : List Char} (h : isBalanced cs = true) :
    StandsAlone cs := by
  fun_induction isBalanced cs with
  | case1 => exact standsAlone_nil
  | case2 c rest hopen ih =>
    rw [Bool.and_eq_true, Option.isNone_iff_eq_none] at h
    exact (ih h.2).text h.1 hopen
  | case3 c rest name hopen hname htag ih =>
    rw [Bool.and_eq_true] at h
    exact .passed hopen htag h.1 (ih h.2)
  | case4 c rest name hopen hname o after htag hafter hself ih =>
    exact .closed hopen htag hself (ih h)
  | case5 => cases h
  | case6 c rest name hopen hname o after htag hafter hself close hclose hlength ihBody ihRest =>
    rw [Bool.and_eq_true] at h
    obtain ⟨hpart, hmark⟩ := suffix_of_closing? hclose
    obtain ⟨body, rfl⟩ := hpart
    rw [take_sub_length] at h ihBody
    exact .wrapping hopen htag (Bool.eq_false_iff.2 hself) hmark (ihBody h.1) (ihRest h.2)

/-! ## Markup that is exchanged -/

/-- Markup can be exchanged for other markup with the same fields and further ones. Behind
whatever it stands, just these are read besides. -/
theorem fieldsWithin_exchange {us vs : List Char} {new : List (Option (List Char) × Attributes)}
    (hu : StandsAlone us) (hv : StandsAlone vs) (hus : Breaks us) (hvs : Breaks vs)
    (hnew : (fieldsWithin vs).Perm (new ++ fieldsWithin us)) {before more : List Char}
    (hends : EndsTags before) (hmore : Breaks more) :
    (fieldsWithin (before ++ (vs ++ more))).Perm
      (new ++ fieldsWithin (before ++ (us ++ more))) := by
  induction hlength : before.length using Nat.strongRecOn generalizing before more with
  | ind n ih =>
    subst hlength
    rcases before with _ | ⟨c, cs⟩
    · rw [List.nil_append, List.nil_append, hv.fields more hmore, hu.fields more hmore,
        ← List.append_assoc]
      exact hnew.append_right _
    have hnext (shorter : List Char) (hpart : shorter <:+ c :: cs)
        (hlt : shorter.length < (c :: cs).length) {more : List Char} (hmore : Breaks more) :=
      ih _ hlt (hends.of_suffix hpart) hmore rfl
    rcases hopen : dropFolded Char.toLower fieldOpen (c :: cs) with _ | name
    · have hopening (rest : List Char) (hrest : Breaks rest) :
          fieldsWithin (c :: cs ++ rest) = fieldsWithin (cs ++ rest) := by
        rw [List.cons_append, fieldsWithin_of_text]
        rw [dropFolded_cons_append hrest.opening, hopen, Option.map_none]
      rw [hopening _ (hvs.append hmore), hopening _ (hus.append hmore)]
      exact hnext cs (List.suffix_cons c cs) (Nat.lt_succ_self _) hmore
    obtain ⟨found, hfound, -⟩ := dropFolded_eq_some_iff.1 hopen
    have hname : name <:+ c :: cs := ⟨found, hfound.symm⟩
    have hlt := lt_of_fieldOpen hopen
    rw [fieldsWithin_of_fieldOpen (dropFolded_append hopen _),
      fieldsWithin_of_fieldOpen (dropFolded_append hopen _), openingTag?_append (hends.cut hopen),
      openingTag?_append (hends.cut hopen)]
    rcases htag : openingTag? name with _ | ⟨o, after⟩
    · exact hnext name hname hlt hmore
    have hafter : after <:+ c :: cs := (suffix_of_openingTag? htag).trans hname
    have hshort := Nat.lt_trans (lt_of_openingTag? htag) hlt
    rcases hself : o.selfClosed with _ | _
    · simp only [Option.map_some, hself, Bool.false_eq_true, if_false]
      have halike := closesAlike (hends.of_suffix hafter) (hvs.append hmore) (hus.append hmore)
        (hv.closing more hmore) (hu.closing more hmore)
      cases halike with
      | inside start hstart hle hinVs hinUs =>
        -- The tag ends in front of what is exchanged.
        obtain ⟨body, rfl⟩ := hstart
        have hdrop := (List.drop_suffix fieldClose.length start).trans
          (List.suffix_append body start)
        have hrest := hnext _ (hdrop.trans hafter)
          (Nat.lt_of_le_of_lt hdrop.length_le hshort) hmore
        rw [hinVs, hinUs]
        simp only [List.append_assoc, take_sub_length, List.drop_append_of_le_length hle]
        have hbehind := (hrest.append_left (fieldsWithin body)).trans
          (List.perm_append_comm_assoc _ _ _)
        exact (hbehind.cons _).trans List.perm_middle.symm
      | behind hsame hbehind =>
        rw [← hsame]
        rcases hclose : closing? (after ++ (vs ++ more)) with _ | close
        · exact hnext name hname hlt hmore
        · -- The tag ends behind it, and its body holds what is exchanged.
          obtain ⟨mid, rfl⟩ := hbehind close hclose
          have hmid : Breaks mid := by
            cases mid with
            | nil => exact breaks_nil
            | cons d mid => exact ⟨hmore.opening, hmore.closing⟩
          have hbody := (hnext after hafter hshort hmid).append_right
            (fieldsWithin (close.drop fieldClose.length))
          simp only [← List.append_assoc, take_sub_length] at hbody ⊢
          rw [List.append_assoc new] at hbody
          exact (hbody.cons _).trans List.perm_middle.symm
    · simp only [Option.map_some, hself, if_true]
      exact ((hnext after hafter hshort hmore).cons _).trans List.perm_middle.symm

end WidgetSchema.Markup
