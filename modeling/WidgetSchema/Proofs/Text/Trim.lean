-- Texts without blank ends. Such a text is its own trimmed text, so trimming twice does no more
-- than trimming once.
import Mathlib.Data.List.DropRight
import WidgetSchema.Text.Blank
import WidgetSchema.Text.Search
namespace WidgetSchema.Text

/-! ## Lists of characters -/

theorem isBlank_of_isAsciiAlphanumeric {c : Char} (h : isAsciiAlphanumeric c = true) :
    isBlank c = false := by
  simp only [isAsciiAlphanumeric, isAsciiDigit, isAsciiLetter, Bool.or_eq_true, Bool.and_eq_true,
    decide_eq_true_eq, Char.le_def, UInt32.le_iff_toNat_le] at h
  have hval : c.toNat = c.val.toNat := rfl
  have h0 : '0'.val.toNat = 48 := rfl
  have h9 : '9'.val.toNat = 57 := rfl
  have ha : 'a'.val.toNat = 97 := rfl
  have hz : 'z'.val.toNat = 122 := rfl
  have hA : 'A'.val.toNat = 65 := rfl
  have hZ : 'Z'.val.toNat = 90 := rfl
  simp only [isBlank, Bool.or_eq_false_iff, Bool.and_eq_false_iff, decide_eq_false_iff_not,
    beq_eq_false_iff_ne]
  omega

/-- Neither the first nor the last character is blank. -/
structure HasSolidEnds (cs : List Char) : Prop where
  first : ∀ c ∈ cs.head?, isBlank c = false
  last : ∀ c ∈ cs.getLast?, isBlank c = false

theorem trimStart_eq_self {cs : List Char} (h : ∀ c ∈ cs.head?, isBlank c = false) :
    trimStart cs = cs := by
  cases cs with
  | nil => rfl
  | cons c cs => rw [trimStart, List.dropWhile_cons, if_neg (by simp [h c rfl])]

theorem trimEnd_eq_self {cs : List Char} (h : ∀ c ∈ cs.getLast?, isBlank c = false) :
    trimEnd cs = cs := by
  have hrev : trimStart cs.reverse = cs.reverse :=
    trimStart_eq_self fun c hc => h c (List.head?_reverse ▸ hc)
  rw [trimEnd]
  exact (congrArg List.reverse hrev).trans (List.reverse_reverse cs)

/-- What is left behind characters of a class does not begin with one of them. -/
theorem first_dropWhile (p : Char → Bool) (cs : List Char) :
    ∀ c ∈ (cs.dropWhile p).head?, p c = false := by
  intro c hc
  have hnot := List.head?_dropWhile_not p cs
  rw [Option.mem_def.1 hc] at hnot
  simpa using hnot

theorem first_trimStart (cs : List Char) : ∀ c ∈ (trimStart cs).head?, isBlank c = false :=
  first_dropWhile isBlank cs

theorem last_trimEnd (cs : List Char) : ∀ c ∈ (trimEnd cs).getLast?, isBlank c = false := by
  intro c hc
  rw [trimEnd, List.getLast?_reverse] at hc
  exact first_trimStart cs.reverse c hc

theorem mem_of_mem_trimChars {c : Char} {cs : List Char} (h : c ∈ trimChars cs) : c ∈ cs := by
  have hend := (List.dropWhile_sublist isBlank).mem (List.mem_reverse.1 h)
  exact (List.dropWhile_sublist isBlank).mem (List.mem_reverse.1 hend)

theorem hasSolidEnds_trimChars (cs : List Char) : HasSolidEnds (trimChars cs) where
  first := by
    intro c hc
    obtain ⟨rest, hrest⟩ : trimChars cs <+: trimStart cs := List.rdropWhile_prefix isBlank _
    refine first_trimStart cs c ?_
    rw [← hrest, Option.mem_def, List.head?_append, Option.mem_def.1 hc]
    rfl
  last := last_trimEnd (trimStart cs)

theorem trimChars_eq_self_iff {cs : List Char} : trimChars cs = cs ↔ HasSolidEnds cs := by
  constructor
  · intro h
    exact h ▸ hasSolidEnds_trimChars cs
  · intro h
    rw [trimChars, trimStart_eq_self h.first, trimEnd_eq_self h.last]

theorem hasSolidEnds_append {as bs : List Char} (ha : HasSolidEnds as) (hb : HasSolidEnds bs) :
    HasSolidEnds (as ++ bs) where
  first := by
    cases as with
    | nil => exact hb.first
    | cons a as => exact ha.first
  last := by
    intro c hc
    rw [Option.mem_def, List.getLast?_append, Option.or_eq_some_iff] at hc
    rcases hc with hc | ⟨_, hc⟩
    · exact hb.last c hc
    · exact ha.last c hc

theorem length_trimChars_le (cs : List Char) : (trimChars cs).length ≤ cs.length := by
  have hend : (trimChars cs).length ≤ (trimStart cs).length :=
    (List.rdropWhile_prefix isBlank _).length_le
  exact Nat.le_trans hend (List.dropWhile_sublist _).length_le

/-! ## Texts -/

theorem trim_eq_self_iff {s : String} : trim s = s ↔ HasSolidEnds s.toList := by
  rw [trim, ← trimChars_eq_self_iff, ← String.toList_inj, String.toList_ofList]

/-- Trimming twice does no more than trimming once. -/
theorem trim_trim (s : String) : trim (trim s) = trim s := by
  rw [trim_eq_self_iff, trim, String.toList_ofList]
  exact hasSolidEnds_trimChars _

theorem trim_append {a b : String} (ha : trim a = a) (hb : trim b = b) :
    trim (a ++ b) = a ++ b := by
  rw [trim_eq_self_iff] at ha hb ⊢
  rw [String.toList_append]
  exact hasSolidEnds_append ha hb

theorem length_trim_le (s : String) : (trim s).length ≤ s.length := by
  rw [trim, String.length_ofList, ← String.length_toList]
  exact length_trimChars_le _

end WidgetSchema.Text
