-- Opening tags. A tag that ends in a text is read the same whatever follows the text, and a tag
-- whose attributes keep their quotes is read to the end that it is written with.
import Mathlib.Data.List.TakeWhile
import WidgetSchema.Markup.Field
namespace WidgetSchema.Markup

/-! ## The end of a tag -/

theorem append_of_cutTag {q : Quoting} {cs inside rest : List Char}
    (h : cutTag q cs = some (inside, rest)) : cs = inside ++ '>' :: rest := by
  induction cs generalizing q inside with
  | nil => cases h
  | cons c cs ih =>
    rw [cutTag] at h
    split at h
    · rename_i hc
      cases h
      simp only [Bool.and_eq_true, decide_eq_true_eq] at hc
      rw [hc.2, List.nil_append]
    · obtain ⟨⟨i, r⟩, hi, he⟩ := Option.map_eq_some_iff.1 h
      cases he
      rw [ih hi, List.cons_append]

theorem cutTag_append {q : Quoting} {cs inside rest : List Char}
    (h : cutTag q cs = some (inside, rest)) (more : List Char) :
    cutTag q (cs ++ more) = some (inside, rest ++ more) := by
  induction cs generalizing q inside with
  | nil => cases h
  | cons c cs ih =>
    rw [cutTag] at h
    rw [List.cons_append, cutTag]
    split at h
    · rename_i hc
      cases h
      rw [if_pos hc]
    · rename_i hc
      obtain ⟨⟨i, r⟩, hi, he⟩ := Option.map_eq_some_iff.1 h
      cases he
      rw [if_neg hc, ih hi, Option.map_some]

/-- A text that leaves a reader of a tag where it was, outside of quotes. -/
def Passes (cs : List Char) : Prop :=
  ∀ more, cutTag .outside (cs ++ more) =
    (cutTag .outside more).map fun p => (cs ++ p.1, p.2)

theorem passes_nil : Passes [] := by
  intro more
  simp

theorem Passes.append {as bs : List Char} (ha : Passes as) (hb : Passes bs) :
    Passes (as ++ bs) := by
  intro more
  rw [List.append_assoc, ha, hb, Option.map_map]
  simp only [List.append_assoc]
  rfl

/-- A character that neither opens quotes nor ends a tag. -/
def IsInert (c : Char) : Prop := c ≠ '"' ∧ c ≠ '\'' ∧ c ≠ '>'

theorem Passes.cons {c : Char} {cs : List Char} (hc : IsInert c) (hcs : Passes cs) :
    Passes (c :: cs) := by
  obtain ⟨hdouble, hsingle, hend⟩ := hc
  intro more
  have hnext : Quoting.next .outside c = .outside := by
    unfold Quoting.next
    split <;> first | rfl | contradiction
  rw [List.cons_append, cutTag, if_neg (by simpa using hend), hnext, hcs, Option.map_map]
  rfl

theorem passes_of_inert {cs : List Char} (h : ∀ c ∈ cs, IsInert c) : Passes cs := by
  induction cs with
  | nil => exact passes_nil
  | cons c cs ih =>
    exact (ih fun d hd => h d (List.mem_cons_of_mem c hd)).cons (h c List.mem_cons_self)

/-- Inside of quotes everything up to the closing quote is passed over. -/
theorem cutTag_quoted {q : Quoting} {quote : Char} (hq : q ≠ .outside)
    (hclose : q.next quote = .outside) (hstay : ∀ c, c ≠ quote → q.next c = q)
    {value : List Char} (hvalue : quote ∉ value) (more : List Char) :
    cutTag q (value ++ quote :: more) =
      (cutTag .outside more).map fun p => (value ++ quote :: p.1, p.2) := by
  induction value with
  | nil => rw [List.nil_append, cutTag, if_neg (by simp [hq]), hclose]; rfl
  | cons c cs ih =>
    rw [List.mem_cons, not_or] at hvalue
    rw [List.cons_append, cutTag, if_neg (by simp [hq]), hstay c (Ne.symm hvalue.1), ih hvalue.2,
      Option.map_map]
    rfl

theorem passes_double {value : List Char} (h : '"' ∉ value) : Passes ('"' :: value ++ ['"']) := by
  intro more
  have hstay : ∀ c, c ≠ '"' → Quoting.double.next c = .double := by
    intro c hc
    unfold Quoting.next
    split <;> first | rfl | contradiction
  have hquoted := cutTag_quoted (by decide) rfl hstay h more
  simp only [List.cons_append, List.append_assoc, List.nil_append]
  rw [cutTag, if_neg (by decide), show Quoting.outside.next '"' = .double from rfl, hquoted,
    Option.map_map]
  rfl

theorem passes_single {value : List Char} (h : '\'' ∉ value) :
    Passes ('\'' :: value ++ ['\'']) := by
  intro more
  have hstay : ∀ c, c ≠ '\'' → Quoting.single.next c = .single := by
    intro c hc
    unfold Quoting.next
    split <;> first | rfl | contradiction
  have hquoted := cutTag_quoted (by decide) rfl hstay h more
  simp only [List.cons_append, List.append_assoc, List.nil_append]
  rw [cutTag, if_neg (by decide), show Quoting.outside.next '\'' = .single from rfl, hquoted,
    Option.map_map]
  rfl

/-! ## The group -/

theorem isInert_of_isGroupChar {c : Char} (h : isGroupChar c = true) : IsInert c := by
  refine ⟨?_, ?_, ?_⟩ <;> rintro rfl <;> revert h <;> decide

theorem not_isGroupChar_of_endsName {c : Char} {cs : List Char} (h : endsName (c :: cs) = true) :
    isGroupChar c = false ∧ c ≠ '-' := by
  simp only [endsName, Bool.or_eq_true, beq_iff_eq] at h
  rcases h with (((((rfl | rfl) | rfl) | rfl) | rfl) | rfl) | rfl <;> decide

/-- A group as it is written behind the name of a tag. -/
def groupText : Option (List Char) → List Char
  | none => []
  | some g => '-' :: g

theorem inert_groupText {group : Option (List Char)}
    (h : ∀ g ∈ group, ∀ c ∈ g, isGroupChar c = true) : ∀ c ∈ groupText group, IsInert c := by
  intro c hc
  cases group with
  | none => exact absurd hc List.not_mem_nil
  | some g =>
    rcases List.mem_cons.1 hc with rfl | hc
    · exact isInert_of_isGroupChar (by decide)
    · exact isInert_of_isGroupChar (h g rfl c hc)

/-- A group is read just where it is written, up to a character that is not of a group. -/
theorem groupPart?_eq_some_iff {cs rest : List Char} {group : Option (List Char)} :
    groupPart? cs = some (group, rest) ↔
      cs = groupText group ++ rest ∧ (∀ g ∈ group, g ≠ [] ∧ ∀ c ∈ g, isGroupChar c = true) ∧
        ∀ c ∈ rest.head?, if group.isSome then isGroupChar c = false else c ≠ '-' := by
  constructor
  · intro h
    unfold groupPart? at h
    split at h
    · rename_i tail
      dsimp only at h
      split at h
      · cases h
      · rename_i hne
        cases h
        refine ⟨?_, ?_, ?_⟩
        · rw [groupText, List.cons_append, List.takeWhile_append_dropWhile]
        · rintro g ⟨⟩
          exact ⟨by simpa using hne, fun c hc => List.mem_takeWhile_imp hc⟩
        · intro c hc
          have hfirst := List.head?_dropWhile_not isGroupChar tail
          rw [Option.mem_def.1 hc] at hfirst
          simpa using hfirst
    · rename_i hnot
      cases h
      refine ⟨rfl, fun g hg => (nomatch hg), ?_⟩
      rintro c hc rfl
      obtain ⟨tail, rfl⟩ := List.head?_eq_some_iff.1 hc
      exact hnot tail rfl
  · rintro ⟨rfl, hgroup, hhead⟩
    cases group with
    | none =>
      rw [groupText, List.nil_append]
      unfold groupPart?
      split
      · exact absurd rfl (hhead '-' rfl)
      · rfl
    | some g =>
      obtain ⟨hne, hchars⟩ := hgroup g rfl
      have hstop : rest.takeWhile isGroupChar = [] ∧ rest.dropWhile isGroupChar = rest := by
        cases rest with
        | nil => exact ⟨rfl, rfl⟩
        | cons c rest =>
          have hc : ¬ isGroupChar c = true := by simpa using hhead c rfl
          exact ⟨List.takeWhile_cons_of_neg hc, List.dropWhile_cons_of_neg hc⟩
      simp only [groupText, List.cons_append, groupPart?, List.takeWhile_append_of_pos hchars,
        List.dropWhile_append_of_pos hchars, hstop, List.append_nil, List.isEmpty_iff, if_neg hne]

theorem groupPart?_append {cs rest : List Char} {group : Option (List Char)}
    (h : groupPart? cs = some (group, rest)) (hrest : rest ≠ []) (more : List Char) :
    groupPart? (cs ++ more) = some (group, rest ++ more) := by
  obtain ⟨rfl, hgroup, hhead⟩ := groupPart?_eq_some_iff.1 h
  obtain ⟨c, rest, rfl⟩ := List.exists_cons_of_ne_nil hrest
  exact groupPart?_eq_some_iff.2 ⟨List.append_assoc .., hgroup, hhead⟩

/-- What makes a group wrong stands in front of the end of the tag. -/
theorem groupPart?_append_eq_none {cs : List Char} (h : groupPart? cs = none)
    (hcut : (cutTag .outside cs).isSome) (more : List Char) : groupPart? (cs ++ more) = none := by
  unfold groupPart? at h
  split at h
  · rename_i tail
    cases tail with
    | nil => cases hcut
    | cons d tail =>
      dsimp only at h
      split at h
      · rename_i hempty
        have hd : ¬ isGroupChar d = true := by
          intro hd
          simp [hd] at hempty
        simp [groupPart?, hd]
      · cases h
  · cases h

/-! ## The opening tag -/

theorem endsName_append {cs : List Char} (h : cs ≠ []) (more : List Char) :
    endsName (cs ++ more) = endsName cs := by
  cases cs with
  | nil => exact absurd rfl h
  | cons c cs => rfl

/-- The end of a tag is looked for behind the group. -/
theorem cutTag_of_groupPart? {cs rest : List Char} {group : Option (List Char)}
    (h : groupPart? cs = some (group, rest)) :
    cutTag .outside cs =
      (cutTag .outside rest).map fun p => (groupText group ++ p.1, p.2) := by
  obtain ⟨rfl, hgroup, -⟩ := groupPart?_eq_some_iff.1 h
  exact passes_of_inert (inert_groupText fun g hg => (hgroup g hg).2) rest

/-- An opening tag that ends in a text is read the same whatever follows. -/
theorem openingTag?_append {cs : List Char} (hcut : (cutTag .outside cs).isSome)
    (more : List Char) :
    openingTag? (cs ++ more) = (openingTag? cs).map fun p => (p.1, p.2 ++ more) := by
  rcases hgroup : groupPart? cs with _ | ⟨group, rest⟩
  · simp [openingTag?, hgroup, groupPart?_append_eq_none hgroup hcut]
  rw [cutTag_of_groupPart? hgroup, Option.isSome_map] at hcut
  obtain ⟨⟨attrs, after⟩, hrest⟩ := Option.isSome_iff_exists.1 hcut
  have hne : rest ≠ [] := by
    rintro rfl
    cases hrest
  simp only [openingTag?, hgroup, groupPart?_append hgroup hne, endsName_append hne, hrest,
    cutTag_append hrest]
  split
  · split <;> rfl
  · rfl

/-- How the rest of an opening tag is written behind its name. -/
def OpeningTag.text (o : OpeningTag) : List Char :=
  groupText o.group ++ (o.attrs ++ if o.selfClosed then ['/', '>'] else ['>'])

theorem append_of_openingTag? {cs after : List Char} {o : OpeningTag}
    (h : openingTag? cs = some (o, after)) : cs = o.text ++ after := by
  unfold openingTag? at h
  split at h
  · cases h
  rename_i group rest hgroup
  obtain ⟨rfl, -, -⟩ := groupPart?_eq_some_iff.1 hgroup
  split at h
  · split at h
    · cases h
    rename_i attrs tail htag
    have hrest := append_of_cutTag htag
    split at h
    · rename_i hslash
      obtain ⟨rfl, rfl⟩ := Prod.mk.inj (Option.some.inj h)
      obtain ⟨front, rfl⟩ := List.getLast?_eq_some_iff.1 hslash
      rw [OpeningTag.text, hrest, List.dropLast_concat]
      simp
    · obtain ⟨rfl, rfl⟩ := Prod.mk.inj (Option.some.inj h)
      rw [OpeningTag.text, hrest]
      simp
  · cases h

theorem suffix_of_openingTag? {cs after : List Char} {o : OpeningTag}
    (h : openingTag? cs = some (o, after)) : after <:+ cs :=
  ⟨o.text, (append_of_openingTag? h).symm⟩

end WidgetSchema.Markup
