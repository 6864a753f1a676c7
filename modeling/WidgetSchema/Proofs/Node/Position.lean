-- The written form of positions. A position is written with digits only, and what is written is
-- read again as long as it fits in 64 bits: so places lead to every item of an array that is not
-- longer than that.
import WidgetSchema.Proofs.Node.Place
import WidgetSchema.Proofs.Text.Split
import WidgetSchema.Text.Blank
import WidgetSchema.Text.DecimalDigit
namespace WidgetSchema

/-! ## Writing positions -/

theorem toList_toString (i : Nat) : (toString i).toList = Nat.toDigits 10 i := by
  rw [Nat.toString_eq_ofList_toDigits, String.toList_ofList]

theorem ofDigitChars_toString (i : Nat) : Nat.ofDigitChars 10 (toString i).toList 0 = i := by
  rw [toList_toString, Nat.ofDigitChars_ten_toDigits]

theorem toString_injective : Function.Injective fun i : Nat => toString i := by
  intro i j h
  have hvalue := congrArg (fun s : String => Nat.ofDigitChars 10 s.toList 0) h
  simpa only [ofDigitChars_toString] using hvalue

theorem isAsciiDigit_of_mem_toString {i : Nat} {c : Char} (h : c ∈ (toString i).toList) :
    Text.isAsciiDigit c = true := by
  rw [toList_toString] at h
  have hdigit := Nat.isDigit_of_mem_toDigits (by decide) (by decide) h
  simpa [Text.isAsciiDigit, Char.isDigit, Char.le_def] using hdigit

theorem notMem_toString {c : Char} (hc : Text.isAsciiDigit c = false) (i : Nat) :
    c ∉ (toString i).toList := by
  intro hmem
  rw [isAsciiDigit_of_mem_toString hmem] at hc
  cases hc

theorem isDecimalDigit_of_isAsciiDigit {c : Char} (h : Text.isAsciiDigit c = true) :
    Text.isDecimalDigit c = true := by
  simp only [Text.isAsciiDigit, Bool.and_eq_true, decide_eq_true_eq] at h
  have hsmall : c.toNat < 0x80 := Nat.lt_of_le_of_lt h.2 (by decide)
  rw [Text.isDecimalDigit, if_pos hsmall]
  simp [h]

/-! ## Reading positions -/

/-- Digits of ASCII are read as their number, if it is below a bound. -/
theorem numberBelow_eq_some_iff {cs : List Char} {bound i : Nat} :
    (if (cs.isEmpty || !cs.all Text.isAsciiDigit) = true then none
      else if Nat.ofDigitChars 10 cs 0 < bound then some (Nat.ofDigitChars 10 cs 0)
      else none) = some i ↔
      cs ≠ [] ∧ (∀ c ∈ cs, Text.isAsciiDigit c = true) ∧
        Nat.ofDigitChars 10 cs 0 < bound ∧ Nat.ofDigitChars 10 cs 0 = i := by
  have hdigits : (cs.isEmpty || !cs.all Text.isAsciiDigit) = false ↔
      cs ≠ [] ∧ ∀ c ∈ cs, Text.isAsciiDigit c = true := by
    simp
  split
  · rename_i hbad
    refine iff_of_false (by simp) fun h => ?_
    rw [hdigits.2 ⟨h.1, h.2.1⟩] at hbad
    cases hbad
  · rename_i hgood
    obtain ⟨hne, hascii⟩ := hdigits.1 (Bool.eq_false_iff.2 hgood)
    split
    · rename_i hfits
      rw [Option.some.injEq]
      exact ⟨fun hi => ⟨hne, hascii, hfits, hi⟩, fun h => h.2.2.2⟩
    · rename_i hlarge
      exact iff_of_false (by simp) fun h => hlarge h.2.2.1

namespace Path

/-- A position is read of ASCII digits, and it is their number, if that fits in 64 bits. -/
theorem index?_eq_some_iff {s : String} {i : Nat} :
    index? s = some i ↔
      s ≠ "" ∧ (∀ c ∈ s.toList, Text.isAsciiDigit c = true) ∧
        Nat.ofDigitChars 10 s.toList 0 < Nat.pow 2 64 ∧ Nat.ofDigitChars 10 s.toList 0 = i := by
  have hvalue : s.toList.foldl (fun n c => 10 * n + (c.toNat - '0'.toNat)) 0 =
      Nat.ofDigitChars 10 s.toList 0 := Nat.ofDigitChars_eq_foldl.symm
  unfold index?
  simp only [hvalue]
  rw [numberBelow_eq_some_iff, Ne, String.toList_eq_nil_iff]

/-- A position is read as it was written. -/
theorem index?_toString {i : Nat} (h : i < Nat.pow 2 64) : index? (toString i) = some i := by
  have hvalue := ofDigitChars_toString i
  exact index?_eq_some_iff.2 ⟨Nat.repr_ne_empty, fun _ => isAsciiDigit_of_mem_toString,
    hvalue.symm ▸ h, hvalue⟩

theorem eq_of_index?_toString {i j : Nat} (h : index? (toString i) = some j) : i = j :=
  (ofDigitChars_toString i).symm.trans (index?_eq_some_iff.1 h).2.2.2

theorem isBlank_of_isAsciiDigit {c : Char} (h : Text.isAsciiDigit c = true) :
    Text.isBlank c = false := by
  simp only [Text.isAsciiDigit, Bool.and_eq_true, decide_eq_true_eq, Char.le_def,
    UInt32.le_iff_toNat_le] at h
  have hlow : 48 ≤ c.toNat := h.1
  have hhigh : c.toNat ≤ 57 := h.2
  simp only [Text.isBlank, Bool.or_eq_false_iff, Bool.and_eq_false_iff, decide_eq_false_iff_not,
    beq_eq_false_iff_ne]
  omega

theorem trim_of_index? {s : String} {i : Nat} (h : index? s = some i) : Text.trim s = s :=
  Text.trim_eq_self fun c hc => isBlank_of_isAsciiDigit ((index?_eq_some_iff.1 h).2.1 c hc)

theorem trim_toString (i : Nat) : Text.trim (toString i) = toString i :=
  Text.trim_eq_self fun _ hc => isBlank_of_isAsciiDigit (isAsciiDigit_of_mem_toString hc)

end Path

/-- An item is read at its written position. -/
theorem Node.child?_toString {i : Nat} (h : i < Nat.pow 2 64) (xs : List Node) :
    (array xs).child? (toString i) = xs[i]? := by
  rw [child?, Path.index?_toString h, Option.bind_some]

/-! ## Written places -/

namespace Path

theorem text_ofText (s : String) : text (ofText s) = s := by
  unfold ofText
  split
  · rename_i h
    rw [h]
    rfl
  · exact Text.join_split '.' s

/-- Segments without dots are read as they were written. -/
theorem ofText_text {p : Path} (hne : text p ≠ "") (hdots : ∀ s ∈ p, '.' ∉ s.toList) :
    ofText (text p) = p := by
  have hp : p ≠ [] := by
    rintro rfl
    exact hne rfl
  rw [ofText, if_neg hne]
  exact Text.split_join hp hdots

/-- Where no segment is empty, only the root is written as the empty text. -/
theorem ofText_text_of_solid {p : Path} (h : ∀ s ∈ p, s ≠ "" ∧ '.' ∉ s.toList) :
    ofText (text p) = p := by
  rcases p with _ | ⟨s, p⟩
  · rfl
  · refine ofText_text (fun hempty => ?_) fun r hr => (h r hr).2
    have hsplit := Text.split_join (List.cons_ne_nil s p) fun r hr => (h r hr).2
    have hjoined : Text.join (String.singleton '.') (s :: p) = "" := hempty
    rw [hjoined] at hsplit
    have hone : s :: p = [""] := hsplit.symm
    exact (h s List.mem_cons_self).1 (List.cons.inj hone).1

end Path

/-! ## Single segments -/

theorem split_toString (i : Nat) : Text.split '.' (toString i) = [toString i] :=
  Text.split_of_notMem (notMem_toString rfl i)

end WidgetSchema
