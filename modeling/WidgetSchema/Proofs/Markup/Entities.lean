-- Entities in texts. A word is replaced where it stands, read from the left, and a text without
-- the word stays. What is put in for a quote is the entity that is decoded first, and none of
-- the characters around it can become a part of it, so the quotes come back.
import WidgetSchema.Markup.Entity
import WidgetSchema.Proofs.Text.Within
namespace WidgetSchema

namespace Text

variable {word new cs : List Char} {c : Char}

/-! ## Replacing a word -/

theorem replaceChars_of_cutAt {before rest : List Char} (hword : word ≠ [])
    (h : cutAt word cs = some (before, rest)) :
    replaceChars word new cs = before ++ new ++ replaceChars word new rest := by
  rw [replaceChars, dif_neg hword]
  split
  · rename_i hsome
    cases h.symm.trans hsome
    rfl
  · rename_i hnone
    cases h.symm.trans hnone

theorem replaceChars_of_cutAt_eq_none (h : cutAt word cs = none) :
    replaceChars word new cs = cs := by
  rw [replaceChars]
  split
  · rfl
  · split
    · rename_i hsome
      cases h.symm.trans hsome
    · rfl

theorem replaceChars_nil (hword : word ≠ []) : replaceChars word new [] = [] :=
  replaceChars_of_cutAt_eq_none (if_neg hword)

/-- A word at the start of a text is replaced first. -/
theorem replaceChars_word (hword : word ≠ []) (rest : List Char) :
    replaceChars word new (word ++ rest) = new ++ replaceChars word new rest := by
  obtain ⟨w, ws, rfl⟩ := List.exists_cons_of_ne_nil hword
  have hdrop : dropWord (w :: ws) (w :: (ws ++ rest)) = some rest := dropWord_eq_some_iff.2 rfl
  have hcut : cutAt (w :: ws) (w :: ws ++ rest) = some ([], rest) := by
    rw [List.cons_append, cutAt, hdrop]
  exact replaceChars_of_cutAt hword hcut

/-- Where the word does not stand, the text goes on as it is. -/
theorem replaceChars_cons (hword : word ≠ []) (h : ¬ word <+: c :: cs) :
    replaceChars word new (c :: cs) = c :: replaceChars word new cs := by
  have hdrop : dropWord word (c :: cs) = none :=
    Option.eq_none_iff_forall_ne_some.2 fun rest hrest =>
      h ⟨rest, (dropWord_eq_some_iff.1 hrest).symm⟩
  have hcut : cutAt word (c :: cs) = (cutAt word cs).map fun p => (c :: p.1, p.2) := by
    rw [cutAt, hdrop]
  rcases hlater : cutAt word cs with _ | ⟨before, rest⟩
  · rw [hlater] at hcut
    rw [replaceChars_of_cutAt_eq_none hlater, replaceChars_of_cutAt_eq_none hcut]
  · rw [hlater] at hcut
    rw [replaceChars_of_cutAt hword hlater, replaceChars_of_cutAt hword hcut]
    rfl

/-- A text without the word stays as it is. -/
theorem replaceChars_of_absent (h : ¬ word <:+: cs) : replaceChars word new cs = cs := by
  have hword : word ≠ [] := by
    rintro rfl
    exact h List.nil_infix
  induction cs with
  | nil => exact replaceChars_nil hword
  | cons c cs ih =>
    rw [List.infix_cons_iff, not_or] at h
    rw [replaceChars_cons hword h.1, ih h.2]

/-- A word is found where it was before, when what is put in begins with a character that it
does not hold. -/
theorem prefix_of_prefix_replaceChars {found : List Char} (hword : word ≠ []) (hc : c ∉ found)
    (h : found <+: replaceChars word (c :: new) cs) : found <+: cs := by
  induction cs generalizing found with
  | nil => rwa [replaceChars_nil hword] at h
  | cons d cs ih =>
    by_cases hp : word <+: d :: cs
    · obtain ⟨rest, hrest⟩ := hp
      rw [← hrest, replaceChars_word hword, List.cons_append] at h
      rcases List.prefix_cons_iff.1 h with rfl | ⟨t, rfl, -⟩
      · exact List.nil_prefix
      · exact absurd List.mem_cons_self hc
    · rw [replaceChars_cons hword hp] at h
      rcases List.prefix_cons_iff.1 h with rfl | ⟨t, rfl, ht⟩
      · exact List.nil_prefix
      · exact List.cons_prefix_cons.2
          ⟨rfl, ih (fun hmem => hc (List.mem_cons_of_mem d hmem)) ht⟩

end Text

namespace Entity

open Text

variable {cs : List Char}

/-! ## Quotes as entities -/

def quoteMark : List Char := "&quot;".toList

/-- A text with its double quotes as entities. -/
def quotesEncoded (cs : List Char) : List Char := replaceChars ['"'] quoteMark cs

theorem quotesEncoded_quote (cs : List Char) :
    quotesEncoded ('"' :: cs) = quoteMark ++ quotesEncoded cs :=
  @replaceChars_word ['"'] quoteMark (by decide) cs

theorem quotesEncoded_cons {c : Char} (hc : c ≠ '"') (cs : List Char) :
    quotesEncoded (c :: cs) = c :: quotesEncoded cs := by
  refine replaceChars_cons (by decide) fun hp => ?_
  exact hc (List.cons_prefix_cons.1 hp).1.symm

theorem quotesEncoded_append (as bs : List Char) :
    quotesEncoded (as ++ bs) = quotesEncoded as ++ quotesEncoded bs := by
  induction as with
  | nil => rw [quotesEncoded, quotesEncoded, replaceChars_nil (by decide)]; rfl
  | cons a as ih =>
    by_cases ha : a = '"'
    · rw [ha, List.cons_append, quotesEncoded_quote, quotesEncoded_quote, ih, List.append_assoc]
    · rw [List.cons_append, quotesEncoded_cons ha, quotesEncoded_cons ha, ih, List.cons_append]

/-- Entities are put in where a quote was, so other words are found where they were before. -/
theorem prefix_of_prefix_quotesEncoded {word : List Char} (hword : '&' ∉ word)
    (h : word <+: quotesEncoded cs) : word <+: cs :=
  @prefix_of_prefix_replaceChars ['"'] "quot;".toList cs '&' word (by decide) hword h

/-- The entities of a text are decoded to the same whether its quotes are entities or not. -/
theorem replaceChars_quotesEncoded (cs : List Char) :
    replaceChars quoteMark ['"'] (quotesEncoded cs) = replaceChars quoteMark ['"'] cs := by
  have hmark : quoteMark ≠ [] := by decide
  induction hn : cs.length using Nat.strongRecOn generalizing cs with
  | _ n ih =>
    cases cs with
    | nil => rw [quotesEncoded, replaceChars_nil (by decide)]
    | cons c cs =>
      have hshorter : cs.length < n := by
        rw [← hn]
        exact Nat.lt_succ_self _
      by_cases hc : c = '"'
      · have hnot : ¬ quoteMark <+: '"' :: cs := fun hp =>
          absurd (List.cons_prefix_cons.1 hp).1 (by decide)
        rw [hc, quotesEncoded_quote, replaceChars_word hmark, replaceChars_cons hmark hnot,
          ih cs.length hshorter cs rfl]
        rfl
      · by_cases hp : quoteMark <+: c :: cs
        · obtain ⟨rest, hrest⟩ := hp
          have hself : quotesEncoded quoteMark = quoteMark :=
            replaceChars_of_absent (by decide)
          have hlength : rest.length < n := by
            rw [← hn, ← hrest, List.length_append]
            exact Nat.lt_add_of_pos_left (by decide)
          rw [← hrest, quotesEncoded_append, hself, replaceChars_word hmark,
            replaceChars_word hmark, ih rest.length hlength rest rfl]
        · have hnot : ¬ quoteMark <+: c :: quotesEncoded cs := fun hq => by
            obtain ⟨hamp, hq⟩ := List.cons_prefix_cons.1 hq
            exact hp (List.cons_prefix_cons.2
              ⟨hamp, prefix_of_prefix_quotesEncoded (by decide) hq⟩)
          rw [quotesEncoded_cons hc, replaceChars_cons hmark hnot, replaceChars_cons hmark hp,
            ih cs.length hshorter cs rfl]

/-! ## Texts without entities -/

/-- One of the entities stands in the text. -/
def HoldsEntity (cs : List Char) : Prop := ∃ p ∈ table, p.1.toList <:+: cs

instance : DecidablePred HoldsEntity := fun cs =>
  inferInstanceAs (Decidable (∃ p ∈ table, p.1.toList <:+: cs))

theorem decodeChars_of_not_holdsEntity (h : ¬ HoldsEntity cs) : decodeChars cs = cs := by
  have hall : ∀ p ∈ table, ¬ p.1.toList <:+: cs := fun p hp hin => h ⟨p, hp, hin⟩
  unfold decodeChars
  generalize table = entities at hall
  induction entities with
  | nil => rfl
  | cons p rest ih =>
    obtain ⟨name, c⟩ := p
    have hname : ¬ name.toList <:+: cs := hall (name, c) List.mem_cons_self
    have hstep : replaceChars name.toList c.toList cs = cs := replaceChars_of_absent hname
    simp only [List.foldl_cons, hstep]
    exact ih fun q hq => hall q (List.mem_cons_of_mem _ hq)

/-- The quotes of a text are decoded first, and then nothing is left of their entities. -/
theorem decodeChars_quotesEncoded (cs : List Char) :
    decodeChars (quotesEncoded cs) = decodeChars cs := by
  have hquote : "\"".toList = ['"'] := by decide
  have hfirst : replaceChars "&quot;".toList "\"".toList (quotesEncoded cs) =
      replaceChars "&quot;".toList "\"".toList cs := by
    rw [hquote]
    exact replaceChars_quotesEncoded cs
  simp only [decodeChars, table, List.foldl_cons, List.foldl_nil, hfirst]

end Entity

end WidgetSchema
