-- Opening tags of panels: the name, the id in its quotes, and whatever else stands in front of
-- the bracket. A tag that ends in a text is read the same whatever follows the text, and of two
-- tags the later one has its panel's text later, also where it starts in the first one.
import Mathlib.Data.List.TakeWhile
import WidgetSchema.Markup.Panel
import WidgetSchema.Proofs.Text.Folded
namespace WidgetSchema.Markup

open Text

/-! ## Opening tags -/

/-- The id in the opening tag of a panel at the start of a text, and what follows the tag. -/
def openingAt? (cs : List Char) : Option (List Char × List Char) := do
  let rest ← dropFolded Char.toLower panelOpen cs
  let (id, rest) ← panelId? rest
  let (_, body) ← cutAt ['>'] rest
  return (id, body)

theorem panelAt?_eq (cs : List Char) : panelAt? cs =
    (openingAt? cs).bind fun (id, body) =>
      (cutFolded Char.toLower panelClose body).map fun (markup, _, after) =>
        (⟨String.ofList id, String.ofList markup⟩, after) := by
  unfold panelAt? openingAt?
  rcases dropFolded Char.toLower panelOpen cs with _ | rest
  · rfl
  rcases hid : panelId? rest with _ | ⟨id, tail⟩
  · simp [hid]
  rcases hcut : cutAt ['>'] tail with _ | ⟨junk, body⟩
  · simp [hid, hcut]
  · simp only [hid, hcut, bind, Option.bind_some, pure]
    rcases cutFolded Char.toLower panelClose body with _ | ⟨markup, word, after⟩ <;> rfl

theorem toLower_of_isBlank {c : Char} (h : isBlank c = true) : c.toLower = c := by
  simp only [isBlank, Bool.or_eq_true, Bool.and_eq_true, decide_eq_true_eq, beq_iff_eq] at h
  unfold Char.toLower
  split
  · rename_i hupper
    have hval : c.toNat = c.val.toNat := rfl
    simp only [ge_iff_le, UInt32.le_iff_toNat_le] at hupper
    have h65 : 'A'.val.toNat = 65 := rfl
    have h90 : 'Z'.val.toNat = 90 := rfl
    omega
  · rfl

theorem cutAt_singleton_eq_some_iff {c : Char} {cs before rest : List Char} :
    cutAt [c] cs = some (before, rest) ↔ cs = before ++ c :: rest ∧ c ∉ before := by
  induction cs generalizing before with
  | nil => simp [cutAt]
  | cons d cs ih =>
    by_cases hd : d = c
    · subst hd
      rw [cutAt, show dropWord [d] (d :: cs) = some cs from if_pos rfl]
      cases before <;> simp +contextual [eq_comm]
    · rw [cutAt, show dropWord [c] (d :: cs) = none from if_neg hd]
      cases before with
      | nil => simp [hd]
      | cons b before =>
        simp only [Option.map_eq_some_iff, Prod.exists, Prod.mk.injEq, List.cons.injEq,
          List.cons_append, List.mem_cons, not_or]
        constructor
        · rintro ⟨x, y, hxy, ⟨rfl, rfl⟩, rfl⟩
          obtain ⟨rfl, hmem⟩ := ih.1 hxy
          exact ⟨⟨rfl, rfl⟩, Ne.symm hd, hmem⟩
        · rintro ⟨⟨rfl, rfl⟩, -, hmem⟩
          exact ⟨_, _, ih.2 ⟨rfl, hmem⟩, ⟨rfl, rfl⟩, rfl⟩

/-- What may stand between the name of a panel and its id. -/
structure IsLead (lead : List Char) : Prop where
  split : ∃ blanks mark, lead = blanks ++ mark ∧ blanks ≠ [] ∧
    (∀ c ∈ blanks, isBlank c = true) ∧ mark.map Char.toLower = "id='".toList

theorem dropWhile_lead {blanks mark : List Char} (hblanks : ∀ c ∈ blanks, isBlank c = true)
    (hmark : mark.map Char.toLower = "id='".toList) (more : List Char) :
    (blanks ++ (mark ++ more)).dropWhile isBlank = mark ++ more := by
  rw [List.dropWhile_append_of_pos hblanks]
  cases mark with
  | nil => cases hmark
  | cons c mark =>
    refine List.dropWhile_cons_of_neg fun hc => ?_
    have hlower := (List.cons.inj hmark).1
    rw [toLower_of_isBlank hc] at hlower
    rw [hlower] at hc
    exact absurd hc (by decide)

theorem panelId?_eq_some_iff {cs id rest : List Char} :
    panelId? cs = some (id, rest) ↔
      ∃ lead, cs = lead ++ (id ++ '\'' :: rest) ∧ IsLead lead ∧ id ≠ [] ∧ '\'' ∉ id := by
  constructor
  · intro h
    unfold panelId? at h
    dsimp only at h
    split at h
    · cases h
    rename_i hblank
    split at h
    · cases h
    rename_i tail hdrop
    obtain ⟨mark, hrest, hmark⟩ := dropFolded_eq_some_iff.1 hdrop
    split at h
    · rename_i c after hafter
      split at h
      · cases h
      rename_i hne
      obtain ⟨rfl, rfl⟩ := Prod.mk.inj (Option.some.inj h)
      have htail : tail.takeWhile (· ≠ '\'') ++ '\'' :: after = tail := by
        have hquote : c = '\'' := by
          have hfirst := List.head?_dropWhile_not (· ≠ '\'') tail
          rw [hafter] at hfirst
          simpa using hfirst
        subst hquote
        rw [← hafter, List.takeWhile_append_dropWhile]
      refine ⟨cs.takeWhile isBlank ++ mark, ?_, ⟨_, mark, rfl, ?_, ?_, hmark⟩, ?_, ?_⟩
      · rw [List.append_assoc, htail, ← hrest, List.takeWhile_append_dropWhile]
      · intro hnil
        have hall := List.takeWhile_append_dropWhile (p := isBlank) (l := cs)
        rw [hnil, List.nil_append] at hall
        exact hblank (by rw [hall])
      · exact fun c hc => List.mem_takeWhile_imp hc
      · simpa using hne
      · intro hmem
        simpa using List.mem_takeWhile_imp hmem
    · cases h
  · rintro ⟨lead, rfl, ⟨blanks, mark, rfl, hne, hblanks, hmark⟩, hid, hquote⟩
    have hdrop : dropFolded Char.toLower "id='".toList (mark ++ (id ++ '\'' :: rest)) =
        some (id ++ '\'' :: rest) := dropFolded_eq_some_iff.2 ⟨mark, rfl, hmark⟩
    have hchars : ∀ c ∈ id, decide (c ≠ '\'') = true := fun c hc =>
      decide_eq_true (ne_of_mem_of_not_mem hc hquote)
    have hlength : (mark ++ (id ++ '\'' :: rest)).length ≠
        (blanks ++ (mark ++ (id ++ '\'' :: rest))).length := by
      have := List.length_pos_iff.2 hne
      simp only [List.length_append]
      omega
    unfold panelId?
    simp only [List.append_assoc, dropWhile_lead hblanks hmark, if_neg hlength, hdrop]
    rw [List.takeWhile_append_of_pos hchars, List.dropWhile_append_of_pos hchars,
      List.takeWhile_cons_of_neg (by simp), List.dropWhile_cons_of_neg (by simp), List.append_nil]
    simp [hid]

/-- An opening tag is its name, what leads to the id, the id in its quotes, and whatever else
stands in front of the bracket. -/
theorem openingAt?_eq_some_iff {cs id body : List Char} :
    openingAt? cs = some (id, body) ↔
      ∃ word lead junk, cs = word ++ (lead ++ (id ++ '\'' :: (junk ++ '>' :: body))) ∧
        word.map Char.toLower = panelOpen ∧ IsLead lead ∧ (id ≠ [] ∧ '\'' ∉ id) ∧
          '>' ∉ junk := by
  constructor
  · intro h
    simp only [openingAt?, bind, Option.bind_eq_some_iff, pure, Option.some.injEq] at h
    obtain ⟨rest, hword, ⟨i, tail⟩, hid, ⟨junk, b⟩, hcut, he⟩ := h
    obtain ⟨rfl, rfl⟩ := Prod.mk.inj he
    obtain ⟨found, rfl, hfound⟩ := dropFolded_eq_some_iff.1 hword
    obtain ⟨lead, rfl, hlead, hne, hquote⟩ := panelId?_eq_some_iff.1 hid
    obtain ⟨hjunk, hend⟩ := cutAt_singleton_eq_some_iff.1 hcut
    dsimp only at hjunk
    exact ⟨found, lead, junk, by rw [hjunk], hfound, hlead, ⟨hne, hquote⟩, hend⟩
  · rintro ⟨word, lead, junk, rfl, hword, hlead, ⟨hne, hquote⟩, hend⟩
    have hdrop := dropFolded_eq_some_iff.2
      ⟨word, (rfl : word ++ (lead ++ (id ++ '\'' :: (junk ++ '>' :: body))) = _), hword⟩
    have hid : panelId? (lead ++ (id ++ '\'' :: (junk ++ '>' :: body))) =
        some (id, junk ++ '>' :: body) := panelId?_eq_some_iff.2 ⟨lead, rfl, hlead, hne, hquote⟩
    have hcut : cutAt ['>'] (junk ++ '>' :: body) = some (junk, body) :=
      cutAt_singleton_eq_some_iff.2 ⟨rfl, hend⟩
    simp [openingAt?, hdrop, hid, hcut]

theorem openingAt?_append {cs id body : List Char} (h : openingAt? cs = some (id, body))
    (more : List Char) : openingAt? (cs ++ more) = some (id, body ++ more) := by
  obtain ⟨word, lead, junk, rfl, hparts⟩ := openingAt?_eq_some_iff.1 h
  exact openingAt?_eq_some_iff.2 ⟨word, lead, junk, by simp, hparts⟩

theorem suffix_of_openingAt? {c : Char} {cs id body : List Char}
    (h : openingAt? (c :: cs) = some (id, body)) : body <:+ cs := by
  obtain ⟨word, lead, junk, hcs, hword, -⟩ := openingAt?_eq_some_iff.1 h
  cases word with
  | nil => cases hword
  | cons w word =>
    obtain ⟨-, rfl⟩ := List.cons.inj hcs
    exact ⟨word ++ lead ++ id ++ '\'' :: junk ++ ['>'], by simp⟩

theorem openingAt?_nil : openingAt? [] = none := rfl

/-! ## An opening tag in an opening tag -/

/-- What follows a character cannot start in front of its first occurrence. -/
theorem suffix_of_first {c : Char} {as bs ds es : List Char} (hc : c ∉ as)
    (h : as ++ c :: bs = ds ++ c :: es) : es <:+ bs := by
  rcases List.append_eq_append_iff.1 h with ⟨more, rfl, hmore⟩ | ⟨more, rfl, hmore⟩
  · cases more with
    | nil => rw [(List.cons.inj hmore).2]
    | cons d more => exact ⟨more ++ [c], by rw [(List.cons.inj hmore).2]; simp⟩
  · cases more with
    | nil => rw [(List.cons.inj hmore).2]
    | cons d more =>
      obtain ⟨rfl, -⟩ := List.cons.inj hmore
      simp at hc

/-- Only the first character of the name is a bracket. -/
theorem name_of_panel {word : List Char} (h : word.map Char.toLower = panelOpen) :
    ∃ w tail, word = w :: tail ∧ w.toLower = '<' ∧ ∀ c ∈ tail, c.toLower ≠ '<' := by
  obtain ⟨tail, rfl, -, hopen, -⟩ := Spells.bracketed h (by decide)
  exact ⟨'<', tail, rfl, by decide, fun c hc hlower =>
    hopen (eq_bracket_of_toLower hlower ▸ hc)⟩

theorem toLower_ne_of_isLead {lead : List Char} (h : IsLead lead) :
    ∀ c ∈ lead, c.toLower ≠ '<' := by
  obtain ⟨blanks, mark, rfl, -, hblanks, hmark⟩ := h
  intro c hc hlower
  rcases List.mem_append.1 hc with hc | hc
  · have hblank := hblanks c hc
    rw [toLower_of_isBlank hblank] at hlower
    rw [hlower] at hblank
    exact absurd hblank (by decide)
  · have hmem := List.mem_map_of_mem (f := Char.toLower) hc
    rw [hmark, hlower] at hmem
    exact absurd hmem (by decide)

/-- A panel that starts later has its text later, also where its opening tag starts in the
opening tag of the first. -/
theorem suffix_of_later {c : Char} {cs later id body id' body' : List Char}
    (h : openingAt? (c :: cs) = some (id, body)) (hlater : later <:+ cs)
    (h' : openingAt? later = some (id', body')) : body' <:+ body := by
  obtain ⟨word, lead, junk, hcs, hword, hlead, ⟨-, hquote⟩, hend⟩ := openingAt?_eq_some_iff.1 h
  obtain ⟨word', lead', junk', rfl, hword', hlead', -, -⟩ := openingAt?_eq_some_iff.1 h'
  obtain ⟨w, word, rfl, -, hword⟩ := name_of_panel hword
  obtain ⟨w', word', rfl, hbracket, -⟩ := name_of_panel hword'
  have hparts : cs = (word ++ lead) ++ (id ++ '\'' :: (junk ++ '>' :: body)) := by
    rw [List.append_assoc]
    exact (List.cons.inj hcs).2
  -- The later tag starts at the id of the first or behind it: nothing in front of the id is
  -- the bracket that a tag starts with.
  have hstart : w' :: word' ++ (lead' ++ (id' ++ '\'' :: (junk' ++ '>' :: body'))) <:+
      id ++ '\'' :: (junk ++ '>' :: body) := by
    have hrest : id ++ '\'' :: (junk ++ '>' :: body) <:+ cs := ⟨word ++ lead, hparts.symm⟩
    rcases List.suffix_or_suffix_of_suffix hlater hrest with hpart | ⟨extra, hextra⟩
    · exact hpart
    cases extra with
    | nil => exact ⟨[], hextra.symm⟩
    | cons d extra =>
      exfalso
      obtain ⟨before, hbefore⟩ := hlater
      obtain rfl : d = w' := (List.cons.inj hextra).1
      have hmem : d ∈ word ++ lead := by
        rw [← hextra, hparts, ← List.append_assoc] at hbefore
        rw [← List.append_cancel_right hbefore]
        simp
      rcases List.mem_append.1 hmem with hmem | hmem
      · exact hword d hmem hbracket
      · exact toLower_ne_of_isLead hlead d hmem hbracket
  obtain ⟨before, hbefore⟩ := hstart
  have hfirst : id ++ '\'' :: (junk ++ '>' :: body) =
      (before ++ w' :: word' ++ lead' ++ id') ++ '\'' :: (junk' ++ '>' :: body') := by
    rw [← hbefore]
    simp
  obtain ⟨between, hbetween⟩ := suffix_of_first hquote hfirst
  have hsecond : junk ++ '>' :: body = (between ++ junk') ++ '>' :: body' := by
    rw [← hbetween]
    simp
  exact suffix_of_first hend hsecond

end WidgetSchema.Markup
