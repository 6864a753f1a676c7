-- Words found without regard to case. A word that holds some character at most at its start
-- is not found across this character, so the texts before it and from it on can be searched
-- one after the other.
import Mathlib.Data.List.Infix
import WidgetSchema.Text.Search
namespace WidgetSchema.Text

variable {fold : Char → Char} {word cs : List Char}

/-! ## At the start of a text -/

theorem dropFolded_eq_some_iff {rest : List Char} :
    dropFolded fold word cs = some rest ↔ ∃ found, cs = found ++ rest ∧ found.map fold = word := by
  induction word generalizing cs with
  | nil => simp [dropFolded]
  | cons w ws ih =>
    cases cs with
    | nil => simp [dropFolded]
    | cons c cs =>
      rw [dropFolded]
      constructor
      · intro h
        split at h
        · rename_i hc
          obtain ⟨found, rfl, rfl⟩ := ih.1 h
          exact ⟨c :: found, rfl, by rw [List.map_cons, hc]⟩
        · cases h
      · rintro ⟨found, hcs, hfound⟩
        cases found with
        | nil => cases hfound
        | cons d found =>
          obtain ⟨rfl, rfl⟩ := List.cons.inj hcs
          obtain ⟨hd, hfound⟩ := List.cons.inj hfound
          rw [if_pos hd]
          exact ih.2 ⟨found, rfl, hfound⟩

/-- A word of small letters is found where it stands. -/
theorem dropFolded_append_self (hword : word.map fold = word) (rest : List Char) :
    dropFolded fold word (word ++ rest) = some rest :=
  dropFolded_eq_some_iff.2 ⟨word, rfl, hword⟩

/-- A word at the start of a text is there whatever follows. -/
theorem dropFolded_append {rest : List Char} (h : dropFolded fold word cs = some rest)
    (more : List Char) : dropFolded fold word (cs ++ more) = some (rest ++ more) := by
  obtain ⟨found, rfl, hfound⟩ := dropFolded_eq_some_iff.1 h
  exact dropFolded_eq_some_iff.2 ⟨found, List.append_assoc .., hfound⟩

/-- Where a word fits in a text, what follows the text does not count. -/
theorem dropFolded_append_of_le (h : word.length ≤ cs.length) (more : List Char) :
    dropFolded fold word (cs ++ more) = (dropFolded fold word cs).map (· ++ more) := by
  induction word generalizing cs with
  | nil => rfl
  | cons w ws ih =>
    cases cs with
    | nil => simp at h
    | cons d cs =>
      rw [List.cons_append, dropFolded, dropFolded]
      split
      · exact ih (Nat.le_of_succ_le_succ h)
      · rfl

/-- A word is not found across a character that it does not hold. -/
theorem dropFolded_across {c : Char} (hc : fold c ∉ word) (more : List Char) :
    dropFolded fold word (cs ++ c :: more) = (dropFolded fold word cs).map (· ++ c :: more) := by
  induction word generalizing cs with
  | nil => rfl
  | cons w ws ih =>
    rw [List.mem_cons, not_or] at hc
    cases cs with
    | nil => simp [dropFolded, hc.1]
    | cons d cs =>
      rw [List.cons_append, dropFolded, dropFolded]
      split
      · exact ih hc.2
      · rfl

/-- Nor across one that it holds at most at its start. -/
theorem dropFolded_cons_across {c d : Char} (hc : fold c ∉ word.tail) (more : List Char) :
    dropFolded fold word (d :: cs ++ c :: more) =
      (dropFolded fold word (d :: cs)).map (· ++ c :: more) := by
  cases word with
  | nil => rfl
  | cons w ws =>
    rw [List.cons_append, dropFolded, dropFolded]
    split
    · exact dropFolded_across hc more
    · rfl

/-- Where nothing follows a text, or something that starts like that, the text can be looked at
on its own. -/
theorem dropFolded_cons_append {more : List Char} (hmore : ∀ c ∈ more.head?, fold c ∉ word.tail)
    (d : Char) : dropFolded fold word (d :: (cs ++ more)) =
      (dropFolded fold word (d :: cs)).map (· ++ more) := by
  cases more with
  | nil => simp
  | cons c more => exact dropFolded_cons_across (hmore c rfl) more

/-! ## In a text -/

theorem cutFolded_cons_eq_none_iff {c : Char} : cutFolded fold word (c :: cs) = none ↔
    dropFolded fold word (c :: cs) = none ∧ cutFolded fold word cs = none := by
  rw [cutFolded]
  split
  · rename_i hdrop
    simp [hdrop]
  · rename_i hdrop
    simp [hdrop]

/-- A word is not in a text just when it is nowhere in the text with small letters. -/
theorem cutFolded_eq_none_iff (hword : word ≠ []) :
    cutFolded fold word cs = none ↔ ¬ word <:+: cs.map fold := by
  induction cs with
  | nil => simp [cutFolded, hword]
  | cons c cs ih =>
    rw [cutFolded_cons_eq_none_iff, ih, List.map_cons, List.infix_cons_iff, not_or]
    refine and_congr_left fun _ => ?_
    rw [Option.eq_none_iff_forall_ne_some]
    constructor
    · rintro h ⟨more, hmore⟩
      obtain ⟨found, rest, hcs, hfound, -⟩ :=
        List.map_eq_append_iff.1 (show (c :: cs).map fold = word ++ more from hmore.symm)
      exact h rest (dropFolded_eq_some_iff.2 ⟨found, hcs, hfound⟩)
    · intro h rest hdrop
      obtain ⟨found, hcs, hfound⟩ := dropFolded_eq_some_iff.1 hdrop
      refine h ⟨rest.map fold, ?_⟩
      rw [← hfound, ← List.map_append, ← hcs, List.map_cons]

theorem append_of_cutFolded {before found rest : List Char}
    (h : cutFolded fold word cs = some (before, found, rest)) :
    cs = before ++ found ++ rest ∧ dropFolded fold word (found ++ rest) = some rest := by
  induction cs generalizing before with
  | nil =>
    rw [cutFolded] at h
    split at h
    · rename_i hword
      cases h
      exact ⟨rfl, by rw [hword]; rfl⟩
    · cases h
  | cons c cs ih =>
    rw [cutFolded] at h
    split at h
    · rename_i after hdrop
      cases h
      obtain ⟨found, hcs, hfound⟩ := dropFolded_eq_some_iff.1 hdrop
      have hlength : found.length = word.length := by rw [← hfound, List.length_map]
      rw [hcs, ← hlength, List.take_left, List.nil_append]
      exact ⟨rfl, dropFolded_eq_some_iff.2 ⟨found, rfl, hfound⟩⟩
    · obtain ⟨⟨b, f, r⟩, hcut, he⟩ := Option.map_eq_some_iff.1 h
      cases he
      obtain ⟨hcs, hdrop⟩ := ih hcut
      exact ⟨by rw [hcs]; simp, hdrop⟩

theorem cutFolded_append_self (hword : word.map fold = word) (hne : word ≠ [])
    (rest : List Char) : cutFolded fold word (word ++ rest) = some ([], word, rest) := by
  have hdrop := dropFolded_append_self hword rest
  cases word with
  | nil => exact absurd rfl hne
  | cons w ws =>
    rw [List.cons_append] at hdrop ⊢
    rw [cutFolded, hdrop, List.length_cons, List.take_succ_cons, List.take_left]

/-- A word is found in the first text that holds it, whatever follows. -/
theorem cutFolded_append {before found rest : List Char}
    (h : cutFolded fold word cs = some (before, found, rest)) (more : List Char) :
    cutFolded fold word (cs ++ more) = some (before, found, rest ++ more) := by
  have hlength := length_cutFolded h
  induction cs generalizing before with
  | nil =>
    rw [cutFolded] at h
    split at h
    · rename_i hword
      cases h
      subst hword
      cases more <;> simp [cutFolded, dropFolded]
    · cases h
  | cons c cs ih =>
    have hle : word.length ≤ (c :: cs).length := by omega
    rw [cutFolded] at h
    rw [List.cons_append, cutFolded, ← List.cons_append, dropFolded_append_of_le hle]
    split at h
    · rename_i after hdrop
      cases h
      rw [hdrop, Option.map_some]
      simp only [List.take_append_of_le_length hle]
    · rename_i hdrop
      obtain ⟨⟨b, f, r⟩, hcut, he⟩ := Option.map_eq_some_iff.1 h
      cases he
      rw [hdrop, Option.map_none]
      simp only
      rw [ih hcut (length_cutFolded hcut), Option.map_some]

/-- A text that does not hold a word is passed over, when a character follows that the word
holds at most at its start. -/
theorem cutFolded_across {c : Char} (h : cutFolded fold word cs = none) (hc : fold c ∉ word.tail)
    (more : List Char) : cutFolded fold word (cs ++ c :: more) =
      (cutFolded fold word (c :: more)).map fun p => (cs ++ p.1, p.2) := by
  induction cs with
  | nil => simp
  | cons d cs ih =>
    obtain ⟨hdrop, hcut⟩ := cutFolded_cons_eq_none_iff.1 h
    rw [List.cons_append, cutFolded, ← List.cons_append, dropFolded_cons_across hc, hdrop,
      Option.map_none]
    simp only
    rw [ih hcut, Option.map_map]
    rfl

/-- Behind a text that does not hold it, a word is found where it stands. -/
theorem cutFolded_behind (h : cutFolded fold word cs = none) (hword : word.map fold = word)
    (hne : word ≠ []) (hhead : word.head hne ∉ word.tail) (rest : List Char) :
    cutFolded fold word (cs ++ (word ++ rest)) = some (cs, word, rest) := by
  have hfound := cutFolded_append_self hword hne rest
  obtain ⟨c, ws, rfl⟩ := List.exists_cons_of_ne_nil hne
  have hc : fold c ∉ ws := by
    rw [(List.cons.inj hword).1]
    exact hhead
  rw [List.cons_append] at hfound ⊢
  rw [cutFolded_across h hc, hfound, Option.map_some, List.append_nil]

/-- A word that is nowhere in a text does not start a part of it. -/
theorem dropFolded_of_cutFolded {start : List Char} (hword : word ≠ [])
    (h : cutFolded fold word cs = none) (hstart : start <:+ cs) :
    dropFolded fold word start = none := by
  rw [Option.eq_none_iff_forall_ne_some]
  intro rest hdrop
  obtain ⟨found, rfl, hfound⟩ := dropFolded_eq_some_iff.1 hdrop
  refine (cutFolded_eq_none_iff hword).1 h ?_
  obtain ⟨before, rfl⟩ := hstart
  exact ⟨before.map fold, rest.map fold, by
    rw [← hfound, ← List.map_append, ← List.map_append, List.append_assoc]⟩

/-! ## Words with a bracket -/

/-- What stands before the small letters is made small of nothing else. -/
theorem eq_of_toLower {c d : Char} (hd : d.val.toNat < 97) (h : c.toLower = d) : c = d := by
  unfold Char.toLower at h
  split at h
  · rename_i hupper
    have hval := congrArg (fun d => d.val.toNat) h
    simp only [ge_iff_le, UInt32.le_iff_toNat_le, UInt32.toNat_add] at hupper hval
    have h65 : 'A'.val.toNat = 65 := rfl
    have h90 : 'Z'.val.toNat = 90 := rfl
    have h32 : ('a'.val - 'A'.val).toNat = 32 := rfl
    omega
  · exact h

theorem eq_bracket_of_toLower {c : Char} (h : c.toLower = '<') : c = '<' :=
  eq_of_toLower (by decide) h

theorem cutFolded_of_notMem_bracket (hword : '<' ∈ word) (h : '<' ∉ cs) :
    cutFolded Char.toLower word cs = none := by
  refine (cutFolded_eq_none_iff (List.ne_nil_of_mem hword)).2 fun hin => ?_
  obtain ⟨c, hc, hlower⟩ := List.mem_map.1 (hin.subset hword)
  exact h (eq_bracket_of_toLower hlower ▸ hc)

/-- A word that is a name once its letters are small. -/
def Spells (word name : List Char) : Prop := word.map Char.toLower = name

/-- Such a word has the bracket of the name at its start, and holds no other. -/
theorem Spells.bracketed {name tail : List Char} (h : Spells name ('<' :: tail))
    (htail : '<' ∉ tail ∧ '>' ∉ tail) :
    ∃ rest, name = '<' :: rest ∧ rest.map Char.toLower = tail ∧ '<' ∉ rest ∧ '>' ∉ rest := by
  obtain ⟨c, rest, rfl, hc, rfl⟩ := List.map_eq_cons_iff.1 h
  obtain rfl := eq_bracket_of_toLower hc
  refine ⟨rest, rfl, rfl, fun hmem => htail.1 ?_, fun hmem => htail.2 ?_⟩
  · exact List.mem_map.2 ⟨'<', hmem, by decide⟩
  · exact List.mem_map.2 ⟨'>', hmem, by decide⟩

end WidgetSchema.Text
