-- What an entry of font axes says: a range of weights, or a single one. A text is searched for a
-- range from its start on, and only what stands behind the last comma is searched. So an entry
-- that holds a range is never read as a single weight, even where the ends of the range are no
-- words.
import WidgetSchema.Proofs.Node.Position
import WidgetSchema.Proofs.Typography.Fitted
import WidgetSchema.Typography.Font
namespace WidgetSchema.Font

open Css (IsDigits isDigits_takeWhile)
open Text (isDecimalDigit isAsciiDigit first_dropWhile splitChars splitChars_eq_splitOn trimChars
  splitOn_of_notMem eq_of_splitOn append_of_splitOn notMem_of_mem_splitOn)

variable {c : Char} {cs rest part a b : List Char} {n : Nat}

/-! ## Ranges -/

/-- A text begins with a range: digits, two points and digits, as many as there are. -/
inductive BeginsWithRange : List Char → List Char → List Char → Prop
  | range {a b after : List Char} : IsDigits a → IsDigits b →
      (∀ c ∈ after.head?, isDecimalDigit c = false) →
      BeginsWithRange (a ++ '.' :: '.' :: (b ++ after)) a b

/-- The first range of a text: the one that it begins with, or else the first one behind its
first character. -/
inductive HasRange : List Char → List Char → List Char → Prop
  | here {cs a b : List Char} : BeginsWithRange cs a b → HasRange cs a b
  | behind {c : Char} {cs a b : List Char} : (∀ x y, ¬ BeginsWithRange (c :: cs) x y) →
      HasRange cs a b → HasRange (c :: cs) a b

/-- A range takes the digits that a text begins with and, behind two points, those that follow. -/
theorem beginsWithRange_iff :
    BeginsWithRange cs a b ↔
      a ≠ [] ∧ b ≠ [] ∧ cs.takeWhile isDecimalDigit = a ∧
        ∃ more, cs.dropWhile isDecimalDigit = '.' :: '.' :: more ∧
          more.takeWhile isDecimalDigit = b := by
  constructor
  · intro h
    cases h with
    | @range a b after ha hb hafter =>
      have hpoint : ∀ c ∈ ('.' :: '.' :: (b ++ after)).head?, isDecimalDigit c = false := by
        rintro c ⟨⟩
        decide
      obtain ⟨htake, hdrop⟩ := ha.span hpoint
      exact ⟨ha.ne_nil, hb.ne_nil, htake, b ++ after, hdrop, (hb.span hafter).1⟩
  · rintro ⟨ha, hb, rfl, more, hdrop, rfl⟩
    have hafter := first_dropWhile isDecimalDigit more
    have hsplit := List.takeWhile_append_dropWhile (p := isDecimalDigit) (l := cs)
    have hmore := List.takeWhile_append_dropWhile (p := isDecimalDigit) (l := more)
    have hrange := BeginsWithRange.range (isDigits_takeWhile (by simpa using ha))
      (isDigits_takeWhile (by simpa using hb)) hafter
    rwa [hmore, ← hdrop, hsplit] at hrange

theorem exists_of_takeWhile (h : cs.takeWhile isDecimalDigit ≠ []) :
    ∃ c rest, cs = c :: rest ∧ isDecimalDigit c = true := by
  cases cs with
  | nil => exact absurd rfl h
  | cons c rest =>
    refine ⟨c, rest, rfl, ?_⟩
    by_contra hc
    exact h (List.takeWhile_cons_of_neg hc)

theorem range?_of_begins (h : BeginsWithRange cs a b) : range? cs = some (a, b) := by
  obtain ⟨ha, hb, rfl, more, hdrop, rfl⟩ := beginsWithRange_iff.1 h
  obtain ⟨c, rest, rfl, hc⟩ := exists_of_takeWhile ha
  obtain ⟨d, after, rfl, hd⟩ := exists_of_takeWhile hb
  rw [List.dropWhile_cons_of_pos hc] at hdrop
  rw [range?, if_pos hc, hdrop, List.takeWhile_cons_of_pos hc, List.takeWhile_cons_of_pos hd]
  exact if_pos hd

theorem range?_of_not_begins (h : ∀ a b, ¬ BeginsWithRange (c :: rest) a b) :
    range? (c :: rest) = range? rest := by
  rw [range?]
  split
  · rename_i hc
    split
    · rename_i d after hdrop
      split
      · rename_i hd
        refine absurd (beginsWithRange_iff.2 ⟨List.cons_ne_nil _ _, List.cons_ne_nil _ _,
          List.takeWhile_cons_of_pos hc, d :: after, ?_, List.takeWhile_cons_of_pos hd⟩) (h _ _)
        rw [List.dropWhile_cons_of_pos hc, hdrop]
      · rfl
    · rfl
  · rfl

theorem range?_eq_some_iff : range? cs = some (a, b) ↔ HasRange cs a b := by
  constructor
  · intro h
    -- either the text begins with the range, or its first character is passed over
    induction cs with
    | nil => cases h
    | cons c rest ih =>
      by_cases hbegins : ∃ x y, BeginsWithRange (c :: rest) x y
      · obtain ⟨x, y, hxy⟩ := hbegins
        obtain ⟨rfl, rfl⟩ := Prod.mk.inj (Option.some.inj ((range?_of_begins hxy).symm.trans h))
        exact .here hxy
      · have hnot : ∀ x y, ¬ BeginsWithRange (c :: rest) x y := fun x y hxy => hbegins ⟨x, y, hxy⟩
        exact .behind hnot (ih (range?_of_not_begins hnot ▸ h))
  · intro h
    induction h with
    | here hbegins => exact range?_of_begins hbegins
    | behind hnot _ ih => exact (range?_of_not_begins hnot).trans ih

theorem range?_eq_none_iff : range? cs = none ↔ ∀ a b, ¬ HasRange cs a b := by
  rw [Option.eq_none_iff_forall_ne_some]
  constructor
  · intro h a b hrange
    exact h (a, b) (range?_eq_some_iff.2 hrange)
  · rintro h ⟨a, b⟩ hrange
    exact h a b (range?_eq_some_iff.1 hrange)

/-! ## Words -/

/-- Digits of ASCII that write a number of at most 32 bits. -/
structure IsWord (cs : List Char) (n : Nat) : Prop where
  ne_nil : cs ≠ []
  digit : ∀ c ∈ cs, isAsciiDigit c = true
  value : Nat.ofDigitChars 10 cs 0 = n
  fits : n < Nat.pow 2 32

theorem word?_eq_some_iff : word? cs = some n ↔ IsWord cs n := by
  have hvalue : Decimal.ofDigits cs = Nat.ofDigitChars 10 cs 0 := Nat.ofDigitChars_eq_foldl.symm
  unfold word?
  simp only [hvalue]
  rw [numberBelow_eq_some_iff]
  constructor
  · rintro ⟨hne, hdigit, hfits, hn⟩
    exact ⟨hne, hdigit, hn, hn ▸ hfits⟩
  · intro h
    exact ⟨h.ne_nil, h.digit, h.value ▸ h.fits, h.value⟩

theorem IsWord.unique {m : Nat} (hm : IsWord cs m) (hn : IsWord cs n) : m = n :=
  hm.value.symm.trans hn.value

/-- A word with or without a plus sign. -/
inductive IsSignedWord : List Char → Nat → Prop
  | plain {cs : List Char} {n : Nat} : IsWord cs n → IsSignedWord cs n
  | plus {cs : List Char} {n : Nat} : IsWord cs n → IsSignedWord ('+' :: cs) n

theorem signedWord?_eq_some_iff : signedWord? cs = some n ↔ IsSignedWord cs n := by
  unfold signedWord?
  split
  · rename_i cs
    rw [word?_eq_some_iff]
    constructor
    · exact .plus
    · intro h
      cases h with
      | plus h => exact h
      | plain h => exact absurd (h.digit '+' List.mem_cons_self) (by decide)
  · rename_i hplus
    rw [word?_eq_some_iff]
    constructor
    · exact .plain
    · intro h
      cases h with
      | plain h => exact h
      | plus h => exact absurd rfl (hplus _)

theorem IsSignedWord.fits (h : IsSignedWord cs n) : n < Nat.pow 2 32 := by
  cases h with
  | plain h => exact h.fits
  | plus h => exact h.fits

/-! ## Entries -/

/-- What stands behind the last comma of a text, or all of it where there is none. -/
structure IsLastPart (cs part : List Char) : Prop where
  comma_notMem : ',' ∉ part
  whole : ∃ before, cs = before ++ part ∧ ∀ c ∈ before.getLast?, c = ','

theorem getLast?_splitChars_iff : (splitChars ',' cs).getLast? = some part ↔ IsLastPart cs part := by
  rw [splitChars_eq_splitOn]
  constructor
  · intro h
    obtain ⟨parts, hparts⟩ := List.getLast?_eq_some_iff.1 h
    refine ⟨notMem_of_mem_splitOn (List.mem_of_getLast? h), ?_⟩
    by_cases hnil : parts = []
    · rw [hnil, List.nil_append] at hparts
      exact ⟨[], (eq_of_splitOn hparts).symm, by simp⟩
    -- the last part is cut off at the comma in front of it
    · obtain ⟨l, r, rfl, -, hr⟩ := append_of_splitOn hparts hnil (List.cons_ne_nil _ _)
      refine ⟨l ++ [','], ?_, by simp⟩
      rw [eq_of_splitOn hr, List.append_assoc, List.singleton_append]
  · rintro ⟨hcomma, before, rfl, hbefore⟩
    have hpart := splitOn_of_notMem hcomma
    rcases List.eq_nil_or_concat before with rfl | ⟨l, c, rfl⟩
    · rw [List.nil_append, hpart, List.getLast?_singleton]
    · rw [List.concat_eq_append] at hbefore ⊢
      obtain rfl : c = ',' := hbefore c (by rw [List.getLast?_concat]; rfl)
      rw [List.append_assoc, List.singleton_append, List.splitOn_append_cons_self, hpart,
        List.getLast?_concat]

/-- An entry is a range between two words. -/
def IsRange (entry : String) (m n : Nat) : Prop :=
  ∃ part a b, IsLastPart entry.toList part ∧ HasRange part a b ∧ IsWord a m ∧ IsWord b n

/-- An entry without a range is a single word. -/
def IsSingle (entry : String) (n : Nat) : Prop :=
  ∃ part, IsLastPart entry.toList part ∧ (∀ a b, ¬ HasRange part a b) ∧
    IsSignedWord (trimChars part) n

theorem exists_lastPart (cs : List Char) : ∃ part, IsLastPart cs part := by
  have hne : splitChars ',' cs ≠ [] := by
    rw [splitChars_eq_splitOn]
    exact List.splitOn_ne_nil _ _
  exact ⟨_, getLast?_splitChars_iff.1 (List.getLast?_eq_some_getLast hne)⟩

theorem IsLastPart.unique {part' : List Char} (h : IsLastPart cs part) (h' : IsLastPart cs part') :
    part = part' :=
  Option.some.inj ((getLast?_splitChars_iff.2 h).symm.trans (getLast?_splitChars_iff.2 h'))

/-- The last part of an entry is searched for a range first, and is a single word only where it
holds none. -/
theorem entryWeights_eq {entry : String} (h : IsLastPart entry.toList part) :
    entryWeights entry =
      match range? part with
      | some (a, b) =>
        match word? a, word? b with
        | some m, some n => hundreds m n
        | _, _ => []
      | none => (signedWord? (trimChars part)).toList := by
  have hlast : ((splitChars ',' entry.toList).getLast?).getD [] = part := by
    rw [getLast?_splitChars_iff.2 h, Option.getD_some]
  subst hlast
  rfl

/-- An entry adds what its range adds, or the single word that it is. -/
theorem mem_entryWeights_iff {entry : String} {w : Nat} :
    w ∈ entryWeights entry ↔ (∃ m n, IsRange entry m n ∧ w ∈ hundreds m n) ∨ IsSingle entry w := by
  obtain ⟨part, hpart⟩ := exists_lastPart entry.toList
  rw [entryWeights_eq hpart]
  constructor
  · intro h
    split at h
    · rename_i a b hrange
      split at h
      · rename_i m n hm hn
        exact .inl ⟨m, n, ⟨part, a, b, hpart, range?_eq_some_iff.1 hrange,
          word?_eq_some_iff.1 hm, word?_eq_some_iff.1 hn⟩, h⟩
      · cases h
    · rename_i hnone
      rw [Option.mem_toList] at h
      exact .inr ⟨part, hpart, range?_eq_none_iff.1 hnone, signedWord?_eq_some_iff.1 h⟩
  · rintro (⟨m, n, ⟨part', a, b, hpart', hrange, hm, hn⟩, hw⟩ | ⟨part', hpart', hnone, hword⟩)
    · obtain rfl := hpart.unique hpart'
      rw [range?_eq_some_iff.2 hrange]
      dsimp only
      rw [word?_eq_some_iff.2 hm, word?_eq_some_iff.2 hn]
      exact hw
    · obtain rfl := hpart.unique hpart'
      rw [range?_eq_none_iff.2 hnone]
      exact Option.mem_toList.2 (signedWord?_eq_some_iff.2 hword)

/-- An entry is one range at most. -/
theorem IsRange.unique {entry : String} {m n k l : Nat} (h : IsRange entry m n)
    (h' : IsRange entry k l) : m = k ∧ n = l := by
  obtain ⟨part, a, b, hpart, hrange, hm, hn⟩ := h
  obtain ⟨part', a', b', hpart', hrange', hk, hl⟩ := h'
  obtain rfl := hpart.unique hpart'
  have hsame := (range?_eq_some_iff.2 hrange).symm.trans (range?_eq_some_iff.2 hrange')
  obtain ⟨rfl, rfl⟩ := Prod.mk.inj (Option.some.inj hsame)
  exact ⟨hm.unique hk, hn.unique hl⟩

theorem IsRange.not_isSingle {entry : String} {m n w : Nat} (h : IsRange entry m n) :
    ¬ IsSingle entry w := by
  rintro ⟨part', hpart', hnone, -⟩
  obtain ⟨part, a, b, hpart, hrange, -⟩ := h
  obtain rfl := hpart.unique hpart'
  exact hnone a b hrange

end WidgetSchema.Font
