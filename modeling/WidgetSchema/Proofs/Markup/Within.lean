-- A field tag in the middle of markup. Whatever stands in front of it, as long as no field tag
-- there is left without its end, the tag is read: outside of all others, or in the body of one
-- that ends behind it.
import WidgetSchema.Proofs.Markup.Document
namespace WidgetSchema.Markup

open Text

/-! ## Tags with an end -/

/-- Every field tag that is opened in the text has the end of its opening tag there. -/
def EndsTags (cs : List Char) : Prop :=
  ∀ start ∈ cs.tails, ∀ name, dropFolded Char.toLower fieldOpen start = some name →
    (cutTag .outside name).isSome = true

instance (cs : List Char) : Decidable (EndsTags cs) :=
  decidable_of_iff (∀ start ∈ cs.tails,
      (dropFolded Char.toLower fieldOpen start).all fun name => (cutTag .outside name).isSome)
    (by simp only [EndsTags, Option.all_eq_true])

theorem EndsTags.of_suffix {cs start : List Char} (h : EndsTags cs) (hstart : start <:+ cs) :
    EndsTags start := by
  intro more hmore
  rw [List.mem_tails] at hmore
  exact h more ((List.mem_tails _ _).2 (hmore.trans hstart))

theorem EndsTags.cut {cs name : List Char} (h : EndsTags cs)
    (hname : dropFolded Char.toLower fieldOpen cs = some name) :
    (cutTag .outside name).isSome = true := h cs ((List.mem_tails _ _).2 List.suffix_rfl) name hname

theorem endsTags_of_unmarked {cs : List Char}
    (h : cutFolded Char.toLower fieldOpen cs = none) : EndsTags cs := by
  intro start hstart name hname
  rw [dropFolded_of_cutFolded (by decide) h ((List.mem_tails _ _).1 hstart)] at hname
  cases hname

/-- Where no name of a field tag reaches over, two texts can be looked at one by one. -/
theorem EndsTags.append {as bs : List Char} {c : Char} (ha : EndsTags as)
    (hb : EndsTags (c :: bs)) (hc : c.toLower ∉ fieldOpen.tail) : EndsTags (as ++ c :: bs) := by
  induction as with
  | nil => exact hb
  | cons d as ih =>
    intro start hstart name hname
    rw [List.cons_append, List.mem_tails, List.suffix_cons_iff] at hstart
    rcases hstart with rfl | hstart
    · rw [← List.cons_append, dropFolded_cons_across hc] at hname
      obtain ⟨rest, hrest, rfl⟩ := Option.map_eq_some_iff.1 hname
      obtain ⟨⟨inside, after⟩, hcut⟩ := Option.isSome_iff_exists.1 (ha.cut hrest)
      rw [cutTag_append hcut]
      rfl
    · exact ih (ha.of_suffix (List.suffix_cons d as)) start ((List.mem_tails _ _).2 hstart) name
        hname

theorem isSome_cutTag_of_openingTag? {cs after : List Char} {o : OpeningTag}
    (h : openingTag? cs = some (o, after)) : (cutTag .outside cs).isSome = true := by
  unfold openingTag? at h
  split at h
  · cases h
  rename_i group rest hgroup
  rw [cutTag_of_groupPart? hgroup, Option.isSome_map]
  split at h
  · split at h
    · cases h
    · rename_i hcut
      rw [hcut]
      rfl
  · cases h

/-! ## Where a body ends that is open in front of a text -/

/-- No mark of a field tag reaches over into the text. -/
structure Breaks (cs : List Char) : Prop where
  opening : ∀ c ∈ cs.head?, c.toLower ∉ fieldOpen.tail
  closing : ∀ c ∈ cs.head?, c.toLower ∉ fieldClose.tail

theorem breaks_nil : Breaks [] where
  opening _ h := nomatch h
  closing _ h := nomatch h

/-- Neither over a line break nor over a bracket. -/
theorem breaks_of_head? {cs : List Char} (h : cs.head? = some '<' ∨ cs.head? = some '\n') :
    Breaks cs := by
  rcases h with h | h <;> refine ⟨fun c hc => ?_, fun c hc => ?_⟩ <;> rw [h] at hc <;> cases hc <;>
    decide

theorem Breaks.append {as bs : List Char} (ha : Breaks as) (hb : Breaks bs) :
    Breaks (as ++ bs) := by
  cases as with
  | nil => exact hb
  | cons c as => exact ⟨ha.opening, ha.closing⟩

/-- Where a body ends that is open in front of one of two texts: in front of both, or behind
them at one place, which is in the text that follows both. -/
inductive ClosesAlike (before us vs more : List Char) : Prop
  | inside (start : List Char) (hstart : start <:+ before)
    (hlength : fieldClose.length ≤ start.length)
    (hus : closing? (before ++ us) = some (start ++ us))
    (hvs : closing? (before ++ vs) = some (start ++ vs))
  | behind (hsame : closing? (before ++ us) = closing? (before ++ vs))
    (hmore : ∀ close, closing? (before ++ us) = some close → close <:+ more)

variable {before us vs more : List Char}

theorem ClosesAlike.of_suffix {shorter : List Char} (h : ClosesAlike shorter us vs more)
    (hpart : shorter <:+ before) (hus : closing? (before ++ us) = closing? (shorter ++ us))
    (hvs : closing? (before ++ vs) = closing? (shorter ++ vs)) :
    ClosesAlike before us vs more := by
  cases h with
  | inside start hstart hlength hu hv =>
    exact .inside start (hstart.trans hpart) hlength (hus.trans hu) (hvs.trans hv)
  | behind hsame hmore =>
    exact .behind (hus.trans (hsame.trans hvs.symm)) fun close hclose =>
      hmore close (hus.symm.trans hclose)

/-- Two texts behind which the reader of a body goes on alike can be exchanged for one another
behind any text. -/
theorem closesAlike (hends : EndsTags before) (hus : Breaks us) (hvs : Breaks vs)
    (hu : closing? us = closing? more) (hv : closing? vs = closing? more) :
    ClosesAlike before us vs more := by
  induction hlength : before.length using Nat.strongRecOn generalizing before with
  | ind n ih =>
    subst hlength
    rcases before with _ | ⟨c, cs⟩
    · exact .behind (hu.trans hv.symm) fun close h => (suffix_of_closing? (hu.symm.trans h)).1
    have hnext (shorter : List Char) (hpart : shorter <:+ c :: cs)
        (hlt : shorter.length < (c :: cs).length) := ih _ hlt (hends.of_suffix hpart) rfl
    have hclosing (more : List Char) (hmore : Breaks more) :
        dropFolded Char.toLower fieldClose (c :: cs ++ more) = _ :=
      dropFolded_cons_append hmore.closing c
    have hopening (more : List Char) (hmore : Breaks more) :
        dropFolded Char.toLower fieldOpen (c :: cs ++ more) = _ :=
      dropFolded_cons_append hmore.opening c
    rcases hclose : dropFolded Char.toLower fieldClose (c :: cs) with _ | rest
    · rcases hopen : dropFolded Char.toLower fieldOpen (c :: cs) with _ | name
      · simp only [hclose, hopen, Option.map_none] at hclosing hopening
        exact (hnext cs (List.suffix_cons c cs) (Nat.lt_succ_self _)).of_suffix
          (List.suffix_cons c cs) (closing?_of_text (hclosing us hus) (hopening us hus))
          (closing?_of_text (hclosing vs hvs) (hopening vs hvs))
      simp only [hopen, Option.map_some] at hopening
      obtain ⟨found, hfound, -⟩ := dropFolded_eq_some_iff.1 hopen
      have hname : name <:+ c :: cs := ⟨found, hfound.symm⟩
      have hlt := lt_of_fieldOpen hopen
      have hreadUs := closing?_of_fieldOpen (hopening us hus)
      have hreadVs := closing?_of_fieldOpen (hopening vs hvs)
      rw [openingTag?_append (hends.cut hopen)] at hreadUs hreadVs
      rcases htag : openingTag? name with _ | ⟨o, after⟩
      · rw [htag] at hreadUs hreadVs
        exact (hnext name hname hlt).of_suffix hname hreadUs hreadVs
      have hafter : after <:+ c :: cs := (suffix_of_openingTag? htag).trans hname
      have hshort := Nat.lt_trans (lt_of_openingTag? htag) hlt
      simp only [htag, Option.map_some] at hreadUs hreadVs
      rcases hself : o.selfClosed with _ | _
      · simp only [hself, Bool.false_eq_true, if_false] at hreadUs hreadVs
        cases hnext after hafter hshort with
        | inside start hstart hle hinUs hinVs =>
          -- The body of the tag ends in front of the texts.
          have hdrop := (List.drop_suffix fieldClose.length start).trans hstart
          simp only [hinUs, hinVs, List.drop_append_of_le_length hle] at hreadUs hreadVs
          exact (hnext _ (hdrop.trans hafter) (Nat.lt_of_le_of_lt hdrop.length_le
            hshort)).of_suffix (hdrop.trans hafter) hreadUs hreadVs
        | behind hsame hmore =>
          rw [← hsame] at hreadVs
          rcases hinner : closing? (after ++ us) with _ | inner
          · rw [hinner] at hreadUs hreadVs
            exact (hnext name hname hlt).of_suffix hname hreadUs hreadVs
          · rw [hinner] at hreadUs hreadVs
            refine .behind (hreadUs.trans hreadVs.symm) fun close hfound => ?_
            have hpart := (suffix_of_closing? (hreadUs.symm.trans hfound)).1
            exact hpart.trans ((List.drop_suffix _ _).trans (hmore inner hinner))
      · simp only [hself, if_true] at hreadUs hreadVs
        exact (hnext after hafter hshort).of_suffix hafter hreadUs hreadVs
    · have hle := length_dropFolded hclose
      have hfound (more : List Char) (hmore : Breaks more) :
          closing? (c :: cs ++ more) = some (c :: cs ++ more) :=
        closing?_of_fieldClose (by rw [hclosing more hmore, hclose]; rfl)
      exact .inside (c :: cs) List.suffix_rfl (by omega) (hfound us hus) (hfound vs hvs)

/-! ## Where the body of a tag in front ends -/

variable {head : TagHead}

/-- A tag that is closed by itself, and what follows it. -/
theorem print_closed (head : TagHead) (more : List Char) :
    (Content.closed head).print ++ more =
      fieldOpen ++ (groupText head.group ++ (head.print ++ '/' :: '>' :: more)) := by
  simp [Content.print]

/-- A body that is open in front of the tag ends in front of it or behind it. -/
theorem closing?_before (hhead : head.IsSound) {before more close : List Char}
    (hends : EndsTags before)
    (h : closing? (before ++ ((Content.closed head).print ++ more)) = some close) :
    (∃ start, start <:+ before ∧ close = start ++ ((Content.closed head).print ++ more) ∧
      fieldClose.length ≤ start.length) ∨ close <:+ more := by
  -- At the tag itself, the reader goes on behind it.
  have htag : closing? ((Content.closed head).print ++ more) = closing? more := by
    rw [print_closed, closing?_of_fieldOpen (dropFolded_append_self (by decide) _),
      openingTag?_closed hhead]
    rfl
  have hbreaks : Breaks ((Content.closed head).print ++ more) := breaks_of_head? (.inl rfl)
  cases closesAlike hends hbreaks hbreaks htag htag with
  | inside start hstart hlength hinside _ =>
    exact .inl ⟨start, hstart, Option.some.inj (h.symm.trans hinside), hlength⟩
  | behind _ hmore => exact .inr (hmore close h)

/-! ## The tag is read -/

/-- What is read of a tag that is closed by itself. -/
def closedTag (head : TagHead) : FieldTag where
  source := (Content.closed head).print
  group := head.group
  attrs := head.print
  inner := none

theorem attributes_closedTag (hhead : head.IsSound) : (closedTag head).attributes = head.pairs :=
  attributes_print hhead

/-- At its start the tag is the first one that is read. -/
theorem fieldTags_closed (hhead : head.IsSound) (more : List Char) :
    fieldTags ((Content.closed head).print ++ more) = closedTag head :: fieldTags more := by
  have htag := openingTag?_closed hhead more
  rw [show groupText head.group ++ (head.print ++ '/' :: '>' :: more) =
    (groupText head.group ++ (head.print ++ ['/', '>'])) ++ more by simp] at htag
  rw [Content.print, List.append_assoc, fieldTags_fieldOpen, fieldTag?_closed htag rfl]
  rfl

theorem Holds.mono {cs more : List Char} {t : FieldTag}
    (hmore : ∀ u ∈ fieldTags cs, u ∈ fieldTags more) (h : Holds cs t) : Holds more t := by
  cases h with
  | here ht => exact .here (hmore t ht)
  | inBody hu hbody ht => exact .inBody (hmore _ hu) hbody ht
  | inTemplate hu htemplate ht => exact .inTemplate (hmore _ hu) htemplate ht

/-- A tag that is closed by itself is read wherever it stands behind tags with an end: on its
own, or in the body of one of them. -/
theorem holds_closed (hhead : head.IsSound) {before : List Char} (hends : EndsTags before)
    (more : List Char) :
    Holds (before ++ ((Content.closed head).print ++ more)) (closedTag head) := by
  induction hlength : before.length using Nat.strongRecOn generalizing before more with
  | ind n ih =>
    subst hlength
    rcases hcut : cutFolded Char.toLower fieldOpen before with _ | ⟨text, word, name⟩
    · refine .here ?_
      rw [fieldTags_text hcut (by rintro c ⟨⟩; rfl), fieldTags_closed hhead]
      exact List.mem_cons_self
    obtain ⟨hbefore, hopen⟩ := append_of_cutFolded hcut
    have hpart : word ++ name <:+ before := ⟨text, by rw [hbefore, List.append_assoc]⟩
    have hname : name <:+ before := (List.suffix_append word name).trans hpart
    have hlt : name.length < before.length :=
      Nat.lt_of_lt_of_le (lt_of_fieldOpen hopen) hpart.length_le
    have hnext := openingTag?_append ((hends.of_suffix hpart).cut hopen)
      ((Content.closed head).print ++ more)
    have hfield := fieldTag?_eq word (name ++ ((Content.closed head).print ++ more))
    have hread := fieldTags_eq (before ++ ((Content.closed head).print ++ more))
    rw [cutFolded_append hcut] at hread
    rw [hnext] at hfield
    -- The reader goes on behind the name, when it is that of no tag.
    have hskip : fieldTag? word (name ++ ((Content.closed head).print ++ more)) = none →
        Holds (before ++ ((Content.closed head).print ++ more)) (closedTag head) := by
      intro hnone
      simp only [hnone] at hread
      exact (ih _ hlt (hends.of_suffix hname) more rfl).mono fun u hu => hread ▸ hu
    -- It goes on behind a tag that ends in front of the one to be found.
    have hpass : ∀ u rest, rest <:+ before → rest.length < before.length →
        fieldTag? word (name ++ ((Content.closed head).print ++ more)) =
          some (u, rest ++ ((Content.closed head).print ++ more)) →
        Holds (before ++ ((Content.closed head).print ++ more)) (closedTag head) := by
      intro u rest hrest hless hsome
      simp only [hsome] at hread
      exact (ih _ hless (hends.of_suffix hrest) more rfl).mono fun v hv =>
        hread ▸ List.mem_cons_of_mem u hv
    rcases htag : openingTag? name with _ | ⟨o, after⟩
    · rw [htag] at hfield
      exact hskip hfield
    have hafter : after <:+ before := (suffix_of_openingTag? htag).trans hname
    have hshort := Nat.lt_trans (lt_of_openingTag? htag) hlt
    simp only [htag, Option.map_some] at hfield
    split at hfield
    · exact hpass _ after hafter hshort hfield
    rcases hclose : closing? (after ++ ((Content.closed head).print ++ more)) with _ | close
    · rw [hclose] at hfield
      exact hskip hfield
    simp only [hclose, Option.map_some] at hfield
    rcases closing?_before hhead (hends.of_suffix hafter) hclose with
      ⟨start, hstart, rfl, hle⟩ | ⟨body, rfl⟩
    · rw [List.drop_append_of_le_length hle] at hfield
      have hdrop := (List.drop_suffix fieldClose.length start).trans hstart
      exact hpass _ _ (hdrop.trans hafter) (Nat.lt_of_le_of_lt hdrop.length_le hshort) hfield
    · -- The body that is open ends behind the tag.
      have hbody := ih _ hshort (hends.of_suffix hafter) body rfl
      simp only [hfield] at hread
      refine .inBody (hread ▸ List.mem_cons_self) (congrArg some ?_) hbody
      have hwhole : after ++ ((Content.closed head).print ++ (body ++ close)) =
          (after ++ ((Content.closed head).print ++ body)) ++ close := by
        simp only [List.append_assoc]
      rw [hwhole, take_sub_length]

end WidgetSchema.Markup
