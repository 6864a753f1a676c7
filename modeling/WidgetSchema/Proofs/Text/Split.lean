-- The parts of a text between separators. Two texts with a separator between them have the
-- parts of the one before the parts of the other, and every cut of a list of parts in two
-- comes from such a cut of its text.
import WidgetSchema.Text.Search
namespace WidgetSchema.Text

/-! ## Lists of characters -/

theorem splitChars_eq_splitOn (sep : Char) (cs : List Char) :
    splitChars sep cs = cs.splitOn sep := by
  induction cs with
  | nil => rfl
  | cons c cs ih =>
    rw [List.splitOn_cons_eq_if_modifyHead, splitChars, ih]
    by_cases hc : c = sep
    · simp [hc]
    · obtain ⟨part, parts, hparts⟩ := List.exists_cons_of_ne_nil (List.splitOn_ne_nil sep cs)
      simp [hc, hparts]

theorem notMem_of_mem_splitOn {sep : Char} {cs part : List Char} (h : part ∈ cs.splitOn sep) :
    sep ∉ part := by
  induction cs generalizing part with
  | nil =>
    rw [List.splitOn_nil, List.mem_singleton] at h
    simp [h]
  | cons c cs ih =>
    obtain ⟨first, others, hsplit⟩ := List.exists_cons_of_ne_nil (List.splitOn_ne_nil sep cs)
    rw [List.splitOn_cons_eq_if_modifyHead, hsplit] at h
    rw [hsplit] at ih
    by_cases hc : c = sep
    · simp only [hc, beq_self_eq_true, if_true, List.mem_cons] at h
      rcases h with rfl | h
      · exact List.not_mem_nil
      · exact ih (List.mem_cons.2 h)
    · simp only [beq_iff_eq, hc, if_false, List.modifyHead_cons, List.mem_cons] at h
      rcases h with rfl | h
      · rw [List.mem_cons, not_or]
        exact ⟨Ne.symm hc, ih List.mem_cons_self⟩
      · exact ih (List.mem_cons_of_mem _ h)

/-- Characters without separators are one part. -/
theorem splitOn_of_notMem {sep : Char} {cs : List Char} (h : sep ∉ cs) : cs.splitOn sep = [cs] :=
  List.splitOnP_eq_singleton fun _ hc => beq_false_of_ne fun heq => h (heq ▸ hc)

theorem eq_of_splitOn {sep : Char} {cs part : List Char} (h : cs.splitOn sep = [part]) :
    part = cs := by
  have hjoin : [sep].intercalate (cs.splitOn sep) = cs := List.intercalate_splitOn sep
  rwa [h, List.intercalate_singleton] at hjoin

theorem append_of_splitOn {sep : Char} {cs : List Char} {before after : List (List Char)}
    (h : cs.splitOn sep = before ++ after) (hb : before ≠ []) (ha : after ≠ []) :
    ∃ l r, cs = l ++ sep :: r ∧ l.splitOn sep = before ∧ r.splitOn sep = after := by
  induction cs generalizing before with
  | nil =>
    rcases List.append_eq_singleton_iff.1 h.symm with ⟨hn, _⟩ | ⟨_, hn⟩
    · exact absurd hn hb
    · exact absurd hn ha
  | cons c cs ih =>
    obtain ⟨part, parts, rfl⟩ := List.exists_cons_of_ne_nil hb
    rw [List.splitOn_cons_eq_if_modifyHead] at h
    by_cases hc : c = sep
    · subst hc
      simp only [beq_self_eq_true, if_true, List.cons_append, List.cons.injEq] at h
      obtain ⟨rfl, hrest⟩ := h
      by_cases hp : parts = []
      · subst hp
        exact ⟨[], cs, rfl, rfl, hrest⟩
      · obtain ⟨l, r, rfl, hl, hr⟩ := ih hrest hp
        refine ⟨c :: l, r, rfl, ?_, hr⟩
        rw [List.splitOn_cons_eq_if_modifyHead, hl]
        simp
    · obtain ⟨first, others, hsplit⟩ := List.exists_cons_of_ne_nil (List.splitOn_ne_nil sep cs)
      simp only [beq_iff_eq, hc, if_false, hsplit, List.modifyHead_cons, List.cons_append,
        List.cons.injEq] at h
      obtain ⟨rfl, rfl⟩ := h
      obtain ⟨l, r, rfl, hl, hr⟩ := ih hsplit (List.cons_ne_nil _ _)
      refine ⟨c :: l, r, rfl, ?_, hr⟩
      rw [List.splitOn_cons_eq_if_modifyHead, hl]
      simp [hc]

/-! ## Texts -/

theorem split_eq_splitOn (sep : Char) (s : String) :
    split sep s = (s.toList.splitOn sep).map String.ofList := by
  rw [split, splitChars_eq_splitOn]

theorem split_ne_nil (sep : Char) (s : String) : split sep s ≠ [] := by
  rw [split_eq_splitOn]
  simp

/-- A text without separators has one part. -/
theorem split_of_notMem {sep : Char} {s : String} (h : sep ∉ s.toList) : split sep s = [s] := by
  rw [split_eq_splitOn, splitOn_of_notMem h, List.map_singleton, String.ofList_toList]

theorem split_append (sep : Char) (a b : String) :
    split sep (a ++ String.singleton sep ++ b) = split sep a ++ split sep b := by
  simp only [split_eq_splitOn, String.toList_append, String.toList_singleton, List.append_assoc,
    List.singleton_append, List.splitOn_append_cons_self, List.map_append]

/-- No part has a separator in it. -/
theorem notMem_of_mem_split {sep : Char} {s part : String} (h : part ∈ split sep s) :
    sep ∉ part.toList := by
  rw [split_eq_splitOn] at h
  obtain ⟨cs, hcs, rfl⟩ := List.mem_map.1 h
  rw [String.toList_ofList]
  exact notMem_of_mem_splitOn hcs

/-- The parts of a text make it up again. -/
theorem join_split (sep : Char) (s : String) : join (String.singleton sep) (split sep s) = s := by
  apply String.toList_inj.1
  rw [join, String.toList_intercalate, split_eq_splitOn, List.map_map]
  simp [Function.comp_def, List.intercalate_splitOn]

/-- A text with one part is that part. -/
theorem eq_of_split {sep : Char} {s part : String} (h : split sep s = [part]) : part = s := by
  have hjoin := join_split sep s
  rwa [h, join, String.intercalate_singleton] at hjoin

/-- Texts without separators are the parts of the text that they are joined to. -/
theorem split_join {sep : Char} {parts : List String} (hne : parts ≠ [])
    (h : ∀ s ∈ parts, sep ∉ s.toList) : split sep (join (String.singleton sep) parts) = parts := by
  unfold join
  induction parts with
  | nil => exact absurd rfl hne
  | cons s rest ih =>
    have hs := split_of_notMem (h s List.mem_cons_self)
    cases rest with
    | nil => rw [String.intercalate_singleton, hs]
    | cons r rest =>
      have hrest := ih (List.cons_ne_nil _ _) fun x hx => h x (List.mem_cons_of_mem _ hx)
      rw [String.intercalate_cons_cons, split_append, hs, hrest]
      rfl

/-- Parts with a character between them are parts with it in front of each, but for the first. -/
theorem cons_toList_join {sep : String} {c : Char} (hsep : sep.toList = [c]) {parts : List String}
    (hne : parts ≠ []) :
    c :: (join sep parts).toList = parts.flatMap fun part => c :: part.toList := by
  rw [join, String.toList_intercalate, hsep]
  induction parts with
  | nil => exact absurd rfl hne
  | cons part rest ih =>
    cases rest with
    | nil => simp
    | cons next rest =>
      have hrest := ih (List.cons_ne_nil next rest)
      rw [List.flatMap_cons, ← hrest, List.map_cons, List.map_cons, List.intercalate_cons_cons,
        List.append_assoc]
      rfl

/-- A cut between the parts of a text is a cut of the text at a separator. -/
theorem append_of_split {sep : Char} {s : String} {before after : List String}
    (h : split sep s = before ++ after) (hb : before ≠ []) (ha : after ≠ []) :
    ∃ a b, s = a ++ String.singleton sep ++ b ∧ split sep a = before ∧ split sep b = after := by
  rw [split_eq_splitOn] at h
  obtain ⟨bs, as, hsplit, rfl, rfl⟩ := List.map_eq_append_iff.1 h
  have hbs : bs ≠ [] := fun hn => hb (by rw [hn, List.map_nil])
  have has : as ≠ [] := fun hn => ha (by rw [hn, List.map_nil])
  obtain ⟨l, r, hs, rfl, rfl⟩ := append_of_splitOn hsplit hbs has
  refine ⟨String.ofList l, String.ofList r, ?_, ?_, ?_⟩
  · apply String.toList_inj.1
    simp [hs]
  · rw [split_eq_splitOn, String.toList_ofList]
  · rw [split_eq_splitOn, String.toList_ofList]

end WidgetSchema.Text
