-- The shape of slugs. The words of a text are joined with single dashes, so the whole slug has
-- its shape whatever the text was. Cutting it counts characters and does not ask where words end:
-- the shape is kept just where the last character that stays is no dash.
import WidgetSchema.Proofs.Text.Trim
import WidgetSchema.Proofs.Text.Within
import WidgetSchema.Text.Slug
namespace WidgetSchema.Text

variable {words : List (List Char)} {run w rest cs p : List Char} {c : Char}

/-! ## Words and dashes -/

/-- At least one character, all of them small letters and digits. -/
structure IsSlugWord (w : List Char) : Prop where
  ne_nil : w ≠ []
  plain : ∀ c ∈ w, isSlugChar c = true

/-- Words with a dash between them. -/
def dashed (words : List (List Char)) : List Char := ['-'].intercalate words

/-- Words with single dashes between them and none at the ends. Without a word it is empty. -/
def IsSlug (cs : List Char) : Prop :=
  ∃ words : List (List Char), (∀ w ∈ words, IsSlugWord w) ∧ cs = dashed words

theorem ne_dash_of_isSlugChar (h : isSlugChar c = true) : c ≠ '-' := by
  rintro rfl
  exact absurd h (by decide)

/-- Small letters and digits by their code points. -/
theorem toNat_of_isSlugChar (h : isSlugChar c = true) :
    (48 ≤ c.toNat ∧ c.toNat ≤ 57) ∨ (97 ≤ c.toNat ∧ c.toNat ≤ 122) := by
  simp only [isSlugChar, isAsciiDigit, Bool.or_eq_true, Bool.and_eq_true, decide_eq_true_eq] at h
  exact h

theorem isBlank_of_isSlugChar (h : isSlugChar c = true) : isBlank c = false := by
  have hcode := toNat_of_isSlugChar h
  simp only [isBlank, Bool.or_eq_false_iff, Bool.and_eq_false_iff, decide_eq_false_iff_not,
    beq_eq_false_iff_ne]
  omega

theorem dashed_singleton (w : List Char) : dashed [w] = w := List.intercalate_singleton

theorem dashed_cons (hne : words ≠ []) (w : List Char) :
    dashed (w :: words) = w ++ '-' :: dashed words := by
  obtain ⟨next, words, rfl⟩ := List.exists_cons_of_ne_nil hne
  rw [dashed, List.intercalate_cons_cons, List.append_assoc, List.singleton_append]
  rfl

/-- What is made of words starts with the first character of a word. -/
theorem exists_of_dashed (hne : words ≠ []) (h : ∀ w ∈ words, IsSlugWord w) :
    ∃ c cs, dashed words = c :: cs ∧ isSlugChar c = true := by
  obtain ⟨w, words, rfl⟩ := List.exists_cons_of_ne_nil hne
  obtain ⟨hw, hplain⟩ := h w List.mem_cons_self
  obtain ⟨c, w, rfl⟩ := List.exists_cons_of_ne_nil hw
  have hc := hplain c List.mem_cons_self
  by_cases hnil : words = []
  · exact ⟨c, w, by rw [hnil, dashed_singleton], hc⟩
  · exact ⟨c, w ++ '-' :: dashed words, dashed_cons hnil _, hc⟩

theorem mem_dashed (h : ∀ w ∈ words, IsSlugWord w) (hc : c ∈ dashed words) :
    isSlugChar c = true ∨ c = '-' := by
  rcases mem_of_mem_intercalate hc with hdash | ⟨w, hw, hc⟩
  · exact .inr (List.mem_singleton.1 hdash)
  · exact .inl ((h w hw).plain c hc)

theorem getLast?_dashed (h : ∀ w ∈ words, IsSlugWord w) :
    (dashed words).getLast? ≠ some '-' := by
  induction words with
  | nil => rintro ⟨⟩
  | cons w words ih =>
    obtain ⟨hw, hwords⟩ := List.forall_mem_cons.1 h
    by_cases hne : words = []
    · rw [hne, dashed_singleton]
      intro hlast
      exact ne_dash_of_isSlugChar (hw.plain _ (List.mem_of_getLast? hlast)) rfl
    · obtain ⟨c, cs, hcs, -⟩ := exists_of_dashed hne hwords
      rw [dashed_cons hne, List.getLast?_append_cons, hcs, List.getLast?_cons_cons, ← hcs]
      exact ih hwords

/-- What words and dashes start with is made of words and dashes, but may end with a dash. -/
theorem exists_of_prefix_dashed (h : ∀ w ∈ words, IsSlugWord w) (hp : p <+: dashed words) :
    ∃ ws, (∀ w ∈ ws, IsSlugWord w) ∧ (p = dashed ws ∨ ws ≠ [] ∧ p = dashed ws ++ ['-']) := by
  have hpart : ∀ {w p : List Char}, IsSlugWord w → p <+: w → ∃ ws, (∀ w ∈ ws, IsSlugWord w) ∧
      p = dashed ws := by
    intro w p hw hp
    by_cases hnil : p = []
    · exact ⟨[], by simp, hnil⟩
    · exact ⟨[p], by simpa using ⟨hnil, fun c hc => hw.plain c (hp.mem hc)⟩,
        (dashed_singleton p).symm⟩
  induction words generalizing p with
  | nil => exact ⟨[], by simp, .inl (List.prefix_nil.1 hp)⟩
  | cons w words ih =>
    obtain ⟨hw, hwords⟩ := List.forall_mem_cons.1 h
    by_cases hne : words = []
    · rw [hne, dashed_singleton] at hp
      exact (hpart hw hp).imp fun ws => And.imp_right .inl
    · rw [dashed_cons hne] at hp
      rcases List.prefix_or_prefix_of_prefix hp (List.prefix_append w _) with hshort | ⟨t, rfl⟩
      · exact (hpart hw hshort).imp fun ws => And.imp_right .inl
      · rw [List.prefix_append_right_inj] at hp
        rcases List.prefix_cons_iff.1 hp with rfl | ⟨t, rfl, ht⟩
        · exact ⟨[w], by simpa using hw, .inl (by rw [List.append_nil, dashed_singleton])⟩
        · -- The dash is followed by a next word, or it is what the text ends with.
          obtain ⟨ws, hws, hcases⟩ := ih hwords ht
          have hall : ∀ v ∈ w :: ws, IsSlugWord v := List.forall_mem_cons.2 ⟨hw, hws⟩
          rcases hcases with rfl | ⟨hnext, rfl⟩
          · by_cases hnext : ws = []
            · subst hnext
              exact ⟨[w], hall, .inr ⟨List.cons_ne_nil _ _, by rw [dashed_singleton]; rfl⟩⟩
            · exact ⟨w :: ws, hall, .inl (dashed_cons hnext w).symm⟩
          · refine ⟨w :: ws, hall, .inr ⟨List.cons_ne_nil _ _, ?_⟩⟩
            rw [dashed_cons hnext, List.append_assoc, List.cons_append]

/-! ## The words of a text -/

theorem isSlugWord_of_mem_runs (hrun : ∀ c ∈ run, isSlugChar c = true)
    (hw : w ∈ runs isSlugChar run cs) : IsSlugWord w := by
  have hreverse : ∀ {run : List Char}, run ≠ [] → (∀ c ∈ run, isSlugChar c = true) →
      IsSlugWord run.reverse := fun hne hrun =>
    ⟨by simpa using hne, fun c hc => hrun c (List.mem_reverse.1 hc)⟩
  fun_induction runs isSlugChar run cs with
  | case1 => exact (List.not_mem_nil hw).elim
  | case2 run hne =>
    rw [List.mem_singleton] at hw
    exact hw ▸ hreverse hne hrun
  | case3 run c cs hc ih => exact ih (List.forall_mem_cons.2 ⟨hc, hrun⟩) hw
  | case4 run c cs hc hempty ih => exact ih (fun c hc => (List.not_mem_nil hc).elim) hw
  | case5 run c cs hc hempty ih =>
    rcases List.mem_cons.1 hw with rfl | hw
    · exact hreverse (by simpa using hempty) hrun
    · exact ih (fun c hc => (List.not_mem_nil hc).elim) hw

theorem runs_word (h : ∀ c ∈ w, isSlugChar c = true) (run rest : List Char) :
    runs isSlugChar run (w ++ rest) = runs isSlugChar (w.reverse ++ run) rest := by
  induction w generalizing run with
  | nil => rfl
  | cons c w ih =>
    obtain ⟨hc, hw⟩ := List.forall_mem_cons.1 h
    rw [List.cons_append, runs, if_pos hc, ih hw, List.reverse_cons, List.append_assoc,
      List.singleton_append]

theorem runs_nil (hne : run ≠ []) : runs isSlugChar run [] = [run.reverse] := by
  cases run with
  | nil => exact absurd rfl hne
  | cons c run => rfl

theorem runs_dash (hne : run ≠ []) (rest : List Char) :
    runs isSlugChar run ('-' :: rest) = run.reverse :: runs isSlugChar [] rest := by
  have hdash : isSlugChar '-' = false := by decide
  have hrun : ¬ run.isEmpty = true := by simpa using hne
  rw [runs, hdash, if_neg Bool.false_ne_true, if_neg hrun]

/-- The words are found again, also where a dash stands behind the last of them. -/
theorem runs_dashed (h : ∀ w ∈ words, IsSlugWord w) (hrest : rest = [] ∨ rest = ['-']) :
    runs isSlugChar [] (dashed words ++ rest) = words := by
  induction words with
  | nil => rcases hrest with rfl | rfl <;> rfl
  | cons w words ih =>
    obtain ⟨hw, hwords⟩ := List.forall_mem_cons.1 h
    have hrun : w.reverse ≠ [] := by simpa using hw.ne_nil
    by_cases hne : words = []
    · rw [hne, dashed_singleton, runs_word hw.plain, List.append_nil]
      rcases hrest with rfl | rfl
      · rw [runs_nil hrun, List.reverse_reverse]
      · rw [runs_dash hrun, List.reverse_reverse]
        rfl
    · rw [dashed_cons hne, List.append_assoc, List.cons_append, runs_word hw.plain,
        List.append_nil, runs_dash hrun, List.reverse_reverse, ih hwords]

/-! ## Slugs -/

/-- A text in small form, with ampersands spelled out. -/
def spelled (cs : List Char) : List Char :=
  (cs.flatMap lowerForm).flatMap fun c => if c = '&' then " and ".toList else [c]

/-- The words of a text, in small form. -/
def slugWords (s : String) : List (List Char) := runs isSlugChar [] (spelled (trimChars s.toList))

/-- The slug of a text before it is cut. -/
def wholeSlug (s : String) : List Char := dashed (slugWords s)

theorem toList_slug (s : String) : (slug s).toList = (wholeSlug s).take maxSlugLength :=
  String.toList_ofList

theorem isSlugWord_of_mem_slugWords {s : String} (h : w ∈ slugWords s) : IsSlugWord w :=
  isSlugWord_of_mem_runs (fun _ hc => (List.not_mem_nil hc).elim) h

theorem lowerForm_of_isSlugChar (h : isSlugChar c = true) : lowerForm c = [c] := by
  have hkelvin : c ≠ '\u212a' := by
    rintro rfl
    exact absurd h (by decide)
  have hdotted : c ≠ '\u0130' := by
    rintro rfl
    exact absurd h (by decide)
  have hcode := toNat_of_isSlugChar h
  have hcapital : ¬ (c.val ≥ 'A'.val ∧ c.val ≤ 'Z'.val) := by
    rintro ⟨hlow, hhigh⟩
    have hlow : 65 ≤ c.toNat := hlow
    have hhigh : c.toNat ≤ 90 := hhigh
    omega
  have hsmall : c.toLower = c := dif_neg hcapital
  rw [lowerForm, if_neg hkelvin, if_neg hdotted, hsmall]

/-- Small letters, digits and dashes are spelled as they are. -/
theorem spelled_eq_self (h : ∀ c ∈ cs, isSlugChar c = true ∨ c = '-') : spelled cs = cs := by
  have hone : ∀ c, isSlugChar c = true ∨ c = '-' → lowerForm c = [c] ∧ c ≠ '&' := by
    rintro c (hc | rfl)
    · refine ⟨lowerForm_of_isSlugChar hc, ?_⟩
      rintro rfl
      exact absurd hc (by decide)
    · decide
  induction cs with
  | nil => rfl
  | cons c cs ih =>
    obtain ⟨hc, hcs⟩ := List.forall_mem_cons.1 h
    obtain ⟨hlower, hampersand⟩ := hone c hc
    have hrest := ih hcs
    unfold spelled at hrest ⊢
    rw [List.flatMap_cons, hlower, List.singleton_append, List.flatMap_cons, if_neg hampersand,
      List.singleton_append, hrest]

theorem trimChars_of_slug (h : ∀ c ∈ cs, isSlugChar c = true ∨ c = '-') : trimChars cs = cs := by
  have hsolid : ∀ c ∈ cs, isBlank c = false := fun c hc => by
    rcases h c hc with hc | rfl
    · exact isBlank_of_isSlugChar hc
    · decide
  exact trimChars_eq_self_iff.2
    ⟨fun c hc => hsolid c (List.mem_of_head? hc), fun c hc => hsolid c (List.mem_of_getLast? hc)⟩

/-- A slug has no blanks at all. -/
theorem trim_slug (s : String) : trim (slug s) = slug s := by
  have hplain : ∀ c ∈ (slug s).toList, isSlugChar c = true ∨ c = '-' := fun c hc => by
    rw [toList_slug] at hc
    exact mem_dashed (fun _ => isSlugWord_of_mem_slugWords) (List.mem_of_mem_take hc)
  rw [trim, trimChars_of_slug hplain, String.ofList_toList]

/-- The slug of words and dashes is made of the same words. -/
theorem wholeSlug_dashed {s : String} (h : ∀ w ∈ words, IsSlugWord w)
    (hrest : rest = [] ∨ rest = ['-']) (hs : s.toList = dashed words ++ rest) :
    wholeSlug s = dashed words := by
  have hplain : ∀ c ∈ dashed words ++ rest, isSlugChar c = true ∨ c = '-' := fun c hc => by
    rcases List.mem_append.1 hc with hc | hc
    · exact mem_dashed h hc
    · rcases hrest with rfl | rfl
      · exact (List.not_mem_nil hc).elim
      · exact .inr (List.mem_singleton.1 hc)
  rw [wholeSlug, slugWords, hs, trimChars_of_slug hplain, spelled_eq_self hplain,
    runs_dashed h hrest]

theorem toList_slug_dashed {s : String} (h : ∀ w ∈ words, IsSlugWord w)
    (hrest : rest = [] ∨ rest = ['-']) (hs : s.toList = dashed words ++ rest)
    (hlength : s.toList.length ≤ maxSlugLength) : (slug s).toList = dashed words := by
  rw [hs, List.length_append] at hlength
  rw [toList_slug, wholeSlug_dashed h hrest hs]
  exact List.take_of_length_le (Nat.le_of_add_right_le hlength)

theorem getLast?_take_eq_some_iff {n : Nat} (h : cs.getLast? ≠ some c) :
    (cs.take (n + 1)).getLast? = some c ↔ cs[n]? = some c := by
  rw [List.getLast?_take, if_neg (Nat.succ_ne_zero n), Nat.add_sub_cancel,
    Option.or_eq_some_iff]
  exact or_iff_left fun hlast => h hlast.2

/-- A slug is at most as long as it may be, and before it is cut it is made of words with single
dashes between them. It still is, and stays as it is when it is made a slug again, just where the
cut leaves no dash at its end; otherwise this dash is lost the second time. -/
theorem a_slug_keeps_its_shape_unless_it_is_cut_at_a_dash (s : String) :
    ((slug s).toList = (wholeSlug s).take maxSlugLength ∧ (slug s).length ≤ maxSlugLength) ∧
      IsSlug (wholeSlug s) ∧
      (IsSlug (slug s).toList ↔ (wholeSlug s)[maxSlugLength - 1]? ≠ some '-') ∧
      (slug (slug s) = slug s ↔ (wholeSlug s)[maxSlugLength - 1]? ≠ some '-') ∧
      (slug (slug s) ++ "-" = slug s ↔ (wholeSlug s)[maxSlugLength - 1]? = some '-') := by
  have hwords : ∀ w ∈ slugWords s, IsSlugWord w := fun _ => isSlugWord_of_mem_slugWords
  have hlength : (slug s).toList.length ≤ maxSlugLength := by
    rw [toList_slug]
    exact List.length_take_le _ _
  have hcut : (slug s).toList.getLast? = some '-' ↔
      (wholeSlug s)[maxSlugLength - 1]? = some '-' := by
    rw [toList_slug]
    exact getLast?_take_eq_some_iff (getLast?_dashed hwords)
  refine ⟨⟨toList_slug s, hlength⟩, ⟨_, hwords, rfl⟩, ?_⟩
  have hprefix : (slug s).toList <+: dashed (slugWords s) := toList_slug s ▸ List.take_prefix _ _
  obtain ⟨ws, hws, hkept | ⟨-, hended⟩⟩ := exists_of_prefix_dashed hwords hprefix
  · have hlast : (wholeSlug s)[maxSlugLength - 1]? ≠ some '-' := fun hdash =>
      getLast?_dashed hws (hkept ▸ hcut.2 hdash)
    have hagain : slug (slug s) = slug s := by
      refine String.toList_inj.1 (Eq.trans ?_ hkept.symm)
      exact toList_slug_dashed hws (.inl rfl) (by rw [hkept, List.append_nil]) hlength
    have hlonger : slug (slug s) ++ "-" ≠ slug s := fun hdash => by
      have hlengths := congrArg String.length hdash
      rw [hagain, String.length_append] at hlengths
      exact absurd hlengths (Nat.succ_ne_self _)
    exact ⟨iff_of_true ⟨ws, hws, hkept⟩ hlast, iff_of_true hagain hlast,
      iff_of_false hlonger hlast⟩
  · have hlast : (wholeSlug s)[maxSlugLength - 1]? = some '-' := by
      rw [← hcut, hended, List.getLast?_concat]
    have hagain : slug (slug s) ++ "-" = slug s := by
      refine String.toList_inj.1 ?_
      rw [String.toList_append, toList_slug_dashed hws (.inr rfl) hended hlength, hended]
      rfl
    have hshape : ¬ IsSlug (slug s).toList := by
      rintro ⟨vs, hvs, hsame⟩
      exact getLast?_dashed hvs (hsame ▸ hcut.2 hlast)
    have hshorter : slug (slug s) ≠ slug s := fun hsame => by
      have hlengths := congrArg String.length hagain
      rw [hsame, String.length_append] at hlengths
      exact absurd hlengths (Nat.succ_ne_self _)
    exact ⟨iff_of_false hshape (not_not_intro hlast), iff_of_false hshorter (not_not_intro hlast),
      iff_of_true hagain hlast⟩

/-- A question of which the first words take one character less than a slug may have. -/
def cutQuestion : String := "How do I change the address of an order that is on its way?"

/-- The slug of the question ends with a dash, and is another one when it is made a slug again. -/
theorem a_slug_does_not_always_keep_its_shape :
    slug cutQuestion = "how-do-i-change-the-address-of-an-order-that-is-" ∧
      ¬ IsSlug (slug cutQuestion).toList ∧ slug (slug cutQuestion) ≠ slug cutQuestion := by
  have hslug : slug cutQuestion = "how-do-i-change-the-address-of-an-order-that-is-" := by
    decide +kernel
  refine ⟨hslug, ?_, ?_⟩
  · rw [hslug]
    rintro ⟨ws, hws, hsame⟩
    refine getLast?_dashed hws ?_
    rw [← hsame]
    decide
  · rw [hslug]
    decide +kernel

end WidgetSchema.Text
