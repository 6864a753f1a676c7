-- Words within texts. A word is not found across a character that it does not hold, so a word that
-- stands in a text of parts stands within one of them, if it does not hold what is between them.
import Mathlib.Data.List.Infix
import WidgetSchema.Proofs.Text.Split
namespace WidgetSchema.Text

variable {word : List Char} {c : Char}

/-! ## Words across a character -/

/-- A word is not found across a character that it does not hold. -/
theorem prefix_of_prefix_append_cons {as bs : List Char} (hc : c ∉ word)
    (h : word <+: as ++ c :: bs) : word <+: as := by
  induction as generalizing word with
  | nil =>
    rcases List.prefix_cons_iff.1 h with rfl | ⟨t, rfl, -⟩
    · exact List.nil_prefix
    · exact absurd List.mem_cons_self hc
  | cons a as ih =>
    rcases List.prefix_cons_iff.1 h with rfl | ⟨t, rfl, ht⟩
    · exact List.nil_prefix
    · exact List.cons_prefix_cons.2 ⟨rfl, ih (fun hmem => hc (List.mem_cons_of_mem a hmem)) ht⟩

theorem infix_of_infix_append_cons {as bs : List Char} (hc : c ∉ word)
    (h : word <:+: as ++ c :: bs) : word <:+: as ∨ word <:+: bs := by
  induction as with
  | nil =>
    rcases List.infix_cons_iff.1 h with hp | hi
    · have hnil : word <+: [] := @prefix_of_prefix_append_cons word c [] bs hc hp
      exact .inl hnil.isInfix
    · exact .inr hi
  | cons a as ih =>
    rcases List.infix_cons_iff.1 h with hp | hi
    · exact .inl (prefix_of_prefix_append_cons hc hp).isInfix
    · exact (ih hi).imp_left fun hi => List.infix_cons_iff.2 (.inr hi)

/-- A word does not start where its first character does not stand. -/
theorem infix_of_infix_append {first : Char} {as bs : List Char} (h : first ∉ as)
    (hin : first :: word <:+: as ++ bs) : first :: word <:+: bs := by
  induction as with
  | nil => exact hin
  | cons a as ih =>
    rw [List.mem_cons, not_or] at h
    rcases List.infix_cons_iff.1 hin with hp | hi
    · exact absurd (List.cons_prefix_cons.1 hp).1 h.1
    · exact ih h.2 hi

/-- A character stands behind a text that does not hold it. -/
theorem exists_of_append_eq {as bs before after : List Char} (hc : c ∉ as)
    (h : as ++ bs = before ++ c :: after) :
    ∃ rest, before = as ++ rest ∧ bs = rest ++ c :: after := by
  induction as generalizing before with
  | nil => exact ⟨before, rfl, h⟩
  | cons a as ih =>
    rw [List.mem_cons, not_or] at hc
    rcases before with _ | ⟨b, before⟩
    · exact absurd (List.cons.inj h).1.symm hc.1
    · obtain ⟨rfl, htail⟩ := List.cons.inj h
      obtain ⟨rest, rfl, hrest⟩ := ih hc.2 htail
      exact ⟨rest, rfl, hrest⟩

/-- A text is the same up to the first place of a character, and the same behind it. -/
theorem append_cons_inj_of_first {as bs more rest : List Char} (has : c ∉ as) (hbs : c ∉ bs)
    (h : as ++ c :: more = bs ++ c :: rest) : as = bs ∧ more = rest := by
  obtain ⟨between, rfl, hbetween⟩ := exists_of_append_eq has h
  rcases between with _ | ⟨d, between⟩
  · exact ⟨(List.append_nil as).symm, (List.cons.inj hbetween).2⟩
  · rw [(List.cons.inj hbetween).1] at hbs
    simp at hbs

/-! ## Parts of a text -/

theorem mem_of_mem_intercalate {sep : List Char} {parts : List (List Char)} {c : Char}
    (h : c ∈ sep.intercalate parts) : c ∈ sep ∨ ∃ part ∈ parts, c ∈ part := by
  induction parts with
  | nil => exact (List.not_mem_nil h).elim
  | cons part parts ih =>
    cases parts with
    | nil =>
      rw [List.intercalate_singleton] at h
      exact Or.inr ⟨part, List.mem_singleton_self _, h⟩
    | cons next parts =>
      rw [List.intercalate_cons_cons, List.mem_append, List.mem_append] at h
      rcases h with (hpart | hsep) | hrest
      · exact Or.inr ⟨part, List.mem_cons_self, hpart⟩
      · exact Or.inl hsep
      · rcases ih hrest with hsep | ⟨other, hmem, hc⟩
        · exact Or.inl hsep
        · exact Or.inr ⟨other, List.mem_cons_of_mem _ hmem, hc⟩

/-- A word without separators stands within one of the parts. -/
theorem infix_of_infix_intercalate {sep : Char} {parts : List (List Char)} (hsep : sep ∉ word)
    (hne : word ≠ []) (h : word <:+: [sep].intercalate parts) : ∃ part ∈ parts, word <:+: part := by
  induction parts with
  | nil => exact absurd (List.infix_nil.1 h) hne
  | cons part parts ih =>
    cases parts with
    | nil =>
      rw [List.intercalate_singleton] at h
      exact ⟨part, List.mem_singleton_self _, h⟩
    | cons next parts =>
      rw [List.intercalate_cons_cons, List.append_assoc, List.singleton_append] at h
      rcases infix_of_infix_append_cons hsep h with hpart | hrest
      · exact ⟨part, List.mem_cons_self, hpart⟩
      · obtain ⟨other, hmem, hin⟩ := ih hrest
        exact ⟨other, List.mem_cons_of_mem _ hmem, hin⟩

theorem infix_intercalate_of_mem {sep part : List Char} {parts : List (List Char)}
    (h : part ∈ parts) : part <:+: sep.intercalate parts := by
  induction parts with
  | nil => cases h
  | cons first parts ih =>
    rcases parts with _ | ⟨next, parts⟩
    · rw [List.mem_singleton.1 h, List.intercalate_singleton]
    · rw [List.intercalate_cons_cons, List.append_assoc]
      rcases List.mem_cons.1 h with rfl | h
      · exact (List.prefix_append _ _).isInfix
      · rw [← List.append_assoc]
        exact (ih h).trans (List.suffix_append _ _).isInfix

theorem infix_of_mem_split {sep : Char} {s part : String} (h : part ∈ split sep s) :
    part.toList <:+: s.toList := by
  have hwhole := congrArg String.toList (join_split sep s)
  rw [join, String.toList_intercalate] at hwhole
  rw [← hwhole]
  exact infix_intercalate_of_mem (List.mem_map_of_mem h)

end WidgetSchema.Text
