-- The lexemes of a laid-out tree. Strings and whole numbers are read as they were written, and so
-- is every lexeme before a character that cannot go on with it, so what is read from the text of
-- a tree is what the tree consists of.
import Mathlib.Data.List.TakeWhile
import WidgetSchema.Node.Text
import WidgetSchema.Node.Token
import WidgetSchema.Proofs.Node.Position
namespace WidgetSchema

open Text

/-! ## Strings -/

namespace Token

/-- The part that a character is written as. -/
def partOf (c : Char) : StringPart :=
  if c.toNat < 0x20 ∧ c ∉ ['\x08', '\x0c', '\n', '\r', '\t'] then .unit c.toNat else .char c

theorem unit?_hexDigit : ∀ n < 0x20,
    unit? '0' '0' (Node.hexDigit (n / 16)) (Node.hexDigit (n % 16)) = some n := by
  decide

theorem stringPart?_escapeChar (c : Char) (rest : List Char) :
    stringPart? (Node.escapeChar c ++ rest) = some (partOf c, rest) := by
  unfold Node.escapeChar
  by_cases hquote : c = '"'
  · subst hquote
    rfl
  by_cases hback : c = '\\'
  · subst hback
    rfl
  by_cases hletter : c ∈ ['\x08', '\x0c', '\n', '\r', '\t']
  · simp only [List.mem_cons, List.not_mem_nil, or_false] at hletter
    rcases hletter with rfl | rfl | rfl | rfl | rfl <;> rfl
  have hletters := hletter
  simp only [List.mem_cons, List.not_mem_nil, or_false, not_or] at hletters
  obtain ⟨hb, hf, hn, hr, ht⟩ := hletters
  rw [if_neg hquote, if_neg hback, if_neg hb, if_neg hf, if_neg hn, if_neg hr, if_neg ht]
  by_cases hcontrol : c.toNat < 0x20
  · rw [if_pos hcontrol, partOf, if_pos ⟨hcontrol, hletter⟩]
    simp only [List.cons_append, List.nil_append, stringPart?, unit?_hexDigit _ hcontrol,
      Option.map_some]
  · rw [if_neg hcontrol, partOf, if_neg fun h => hcontrol h.1]
    simp [stringPart?, hquote, hback, hcontrol]

theorem escapeChar_ne_quote (c : Char) (rest after : List Char) :
    Node.escapeChar c ++ rest ≠ '"' :: after := by
  by_cases hquote : c = '"'
  · subst hquote
    exact fun h => nomatch h
  · unfold Node.escapeChar
    rw [if_neg hquote]
    intro h
    repeat' split at h
    all_goals first
      | exact hquote (List.cons.inj h).1
      | cases h

theorem stringBody?_of_stringPart? {cs rest : List Char} {p : StringPart}
    (hquote : ∀ after, cs ≠ '"' :: after) (hp : stringPart? cs = some (p, rest)) :
    stringBody? cs = (stringBody? rest).map fun (body, after) => (p :: body, after) := by
  rw [stringBody?.eq_def]
  split
  · exact absurd rfl (hquote _)
  · split
    · rename_i hnone
      cases hnone.symm.trans hp
    · rename_i hsome
      obtain ⟨rfl, rfl⟩ := Prod.mk.inj (Option.some.inj (hsome.symm.trans hp))
      rfl

theorem stringBody?_escaped (cs rest : List Char) :
    stringBody? (cs.flatMap Node.escapeChar ++ '"' :: rest) = some (cs.map partOf, rest) := by
  induction cs with
  | nil =>
    rw [stringBody?.eq_def]
    rfl
  | cons c cs ih =>
    rw [List.flatMap_cons, List.append_assoc,
      stringBody?_of_stringPart? (escapeChar_ne_quote c _) (stringPart?_escapeChar c _), ih]
    rfl

theorem assemble?_unit {u : Nat} (h : u < 0x20) (ps : List StringPart) :
    assemble? (.unit u :: ps) = (assemble? ps).map (Char.ofNat u :: ·) := by
  have hhigh : isHighHalf u = false := by
    simp only [isHighHalf, Bool.and_eq_false_iff, decide_eq_false_iff_not]
    omega
  have hlow : isLowHalf u = false := by
    simp only [isLowHalf, Bool.and_eq_false_iff, decide_eq_false_iff_not]
    omega
  rcases ps with _ | ⟨c | v, ps⟩ <;> simp [assemble?, hhigh, hlow]

theorem assemble?_partOf (c : Char) (ps : List StringPart) :
    assemble? (partOf c :: ps) = (assemble? ps).map (c :: ·) := by
  unfold partOf
  split
  · rename_i h
    rw [assemble?_unit h.1, Char.ofNat_toNat]
  · rw [assemble?]

theorem stringOf_parts (s : String) : stringOf (s.toList.map partOf) = some s := by
  have hchars : ∀ cs : List Char, assemble? (cs.map partOf) = some cs := by
    intro cs
    induction cs with
    | nil => rfl
    | cons c cs ih => rw [List.map_cons, assemble?_partOf, ih, Option.map_some]
  rw [stringOf, hchars, Option.map_some, String.ofList_toList]

/-- A quoted text is read as the text. -/
theorem next?_quoted (s : String) (rest : List Char) :
    next? ((Node.quoted s).toList ++ rest) = some (.string (some s), rest) := by
  have hquoted : (Node.quoted s).toList ++ rest =
      '"' :: (s.toList.flatMap Node.escapeChar ++ '"' :: rest) := by
    simp [Node.quoted]
  rw [hquoted, next?, stringBody?_escaped, Option.map_some]
  exact congrArg (fun t => some (string t, rest)) (stringOf_parts s)

/-! ## Numbers -/

/-- What may stand behind a number: nothing that could be one more character of it. -/
def Ends (rest : List Char) : Prop :=
  ∀ c ∈ rest.head?, isAsciiDigit c = false ∧ c ∉ ['.', 'e', 'E', '+', '-']

theorem takeWhile_before {rest : List Char} (h : Ends rest) (cs : List Char) :
    (cs ++ rest).takeWhile isAsciiDigit = cs.takeWhile isAsciiDigit ∧
      (cs ++ rest).dropWhile isAsciiDigit = cs.dropWhile isAsciiDigit ++ rest := by
  induction cs with
  | nil =>
    cases rest with
    | nil => exact ⟨rfl, rfl⟩
    | cons c rest =>
      have hc := (h c rfl).1
      simp [hc]
  | cons c cs ih =>
    rcases hc : isAsciiDigit c with _ | _
    · simp [hc]
    · simp [hc, ih.1, ih.2]

theorem wholePart?_before {cs digits after rest : List Char} (hrest : Ends rest)
    (h : wholePart? cs = some (digits, after)) :
    wholePart? (cs ++ rest) = some (digits, after ++ rest) := by
  unfold wholePart? at h
  split at h
  · obtain ⟨rfl, rfl⟩ := Prod.mk.inj (Option.some.inj h)
    rfl
  · rename_i c cs hzero
    split at h
    · rename_i hc
      obtain ⟨rfl, rfl⟩ := Prod.mk.inj (Option.some.inj h)
      obtain ⟨htake, hdrop⟩ := takeWhile_before hrest cs
      simp [wholePart?, hc, htake, hdrop]
    · cases h
  · cases h

theorem fractionPart?_before {cs digits after rest : List Char} (hrest : Ends rest)
    (h : fractionPart? cs = some (digits, after)) :
    fractionPart? (cs ++ rest) = some (digits, after ++ rest) := by
  unfold fractionPart? at h
  split at h
  · rename_i cs
    obtain ⟨htake, hdrop⟩ := takeWhile_before hrest cs
    dsimp only at h
    split at h
    · cases h
    · rename_i hne
      obtain ⟨rfl, rfl⟩ := Prod.mk.inj (Option.some.inj h)
      rw [List.cons_append, fractionPart?, htake, hdrop, if_neg hne]
  · rename_i hpoint
    obtain ⟨rfl, rfl⟩ := Prod.mk.inj (Option.some.inj h)
    unfold fractionPart?
    split
    · rename_i tail heq
      cases cs with
      | nil =>
        have hhead := (hrest '.' (by rw [show rest = '.' :: tail from heq]; rfl)).2
        exact absurd (by decide) hhead
      | cons c cs => exact absurd (by rw [(List.cons.inj heq).1]) (hpoint cs)
    · rfl

theorem exponentDigits?_before {negative : Bool} {cs after rest : List Char} {e : Option Int}
    (hrest : Ends rest) (h : exponentDigits? negative cs = some (e, after)) :
    exponentDigits? negative (cs ++ rest) = some (e, after ++ rest) := by
  obtain ⟨htake, hdrop⟩ := takeWhile_before hrest cs
  unfold exponentDigits? at h ⊢
  dsimp only at h ⊢
  rw [htake, hdrop]
  split at h
  · cases h
  · rename_i hne
    obtain ⟨rfl, rfl⟩ := Prod.mk.inj (Option.some.inj h)
    rw [if_neg hne]

theorem exists_digit_of_exponentDigits? {negative : Bool} {cs after : List Char} {e : Option Int}
    (h : exponentDigits? negative cs = some (e, after)) :
    ∃ c tail, cs = c :: tail ∧ isAsciiDigit c = true := by
  unfold exponentDigits? at h
  cases cs with
  | nil => cases h
  | cons c tail =>
    rcases hc : isAsciiDigit c with _ | _
    · simp [hc] at h
    · exact ⟨c, tail, rfl, hc⟩

theorem exponentPart?_of_digit {mark c : Char} {tail : List Char} (hmark : mark = 'e' ∨ mark = 'E')
    (hc : isAsciiDigit c = true) :
    exponentPart? (mark :: c :: tail) = exponentDigits? false (c :: tail) := by
  have hplus : c ≠ '+' := by
    rintro rfl
    cases hc
  have hminus : c ≠ '-' := by
    rintro rfl
    cases hc
  rcases hmark with rfl | rfl <;> simp [exponentPart?, hplus, hminus]

theorem exponentPart?_of_no_mark {cs : List Char} (h : ∀ c ∈ cs.head?, c ≠ 'e' ∧ c ≠ 'E') :
    exponentPart? cs = some (none, cs) := by
  cases cs with
  | nil => rfl
  | cons c cs =>
    obtain ⟨hlower, hupper⟩ := h c rfl
    simp [exponentPart?, hlower, hupper]

theorem exponentPart?_before {cs after rest : List Char} {e : Option Int} (hrest : Ends rest)
    (h : exponentPart? cs = some (e, after)) :
    exponentPart? (cs ++ rest) = some (e, after ++ rest) := by
  unfold exponentPart? at h
  split at h
  · exact exponentDigits?_before hrest h
  · exact exponentDigits?_before hrest h
  · exact exponentDigits?_before hrest h
  · exact exponentDigits?_before hrest h
  · obtain ⟨c, tail, rfl, hc⟩ := exists_digit_of_exponentDigits? h
    rw [List.cons_append, List.cons_append, exponentPart?_of_digit (.inl rfl) hc]
    exact exponentDigits?_before hrest h
  · obtain ⟨c, tail, rfl, hc⟩ := exists_digit_of_exponentDigits? h
    rw [List.cons_append, List.cons_append, exponentPart?_of_digit (.inr rfl) hc]
    exact exponentDigits?_before hrest h
  · rename_i hlower hupper
    obtain ⟨rfl, rfl⟩ := Prod.mk.inj (Option.some.inj h)
    have hmark : ∀ c ∈ (cs ++ rest).head?, c ≠ 'e' ∧ c ≠ 'E' := by
      intro c hc
      cases cs with
      | nil =>
        have hhead := (hrest c hc).2
        constructor <;> (rintro rfl; exact hhead (by decide))
      | cons d cs =>
        obtain rfl := Option.some.inj hc
        exact ⟨fun heq => hlower cs (by rw [heq]), fun heq => hupper cs (by rw [heq])⟩
    exact exponentPart?_of_no_mark hmark

theorem unsignedNumber?_before {negative : Bool} {cs after rest : List Char} {n : Option Number}
    (hrest : Ends rest) (h : unsignedNumber? negative cs = some (n, after)) :
    unsignedNumber? negative (cs ++ rest) = some (n, after ++ rest) := by
  simp only [unsignedNumber?, bind, Option.bind_eq_some_iff, pure, Option.some.injEq,
    Prod.mk.injEq] at h
  obtain ⟨⟨whole, cs₁⟩, hwhole, ⟨fraction, cs₂⟩, hfraction, ⟨exponent, cs₃⟩, hexponent, rfl,
    rfl⟩ := h
  simp only [unsignedNumber?, wholePart?_before hrest hwhole, fractionPart?_before hrest hfraction,
    exponentPart?_before hrest hexponent, bind, Option.bind_some, pure]

theorem number?_before {cs after rest : List Char} {n : Option Number} (hrest : Ends rest)
    (h : number? cs = some (n, after)) : number? (cs ++ rest) = some (n, after ++ rest) := by
  unfold number? at h
  split at h
  · exact unsignedNumber?_before hrest h
  · rename_i hsign
    have hlonger := unsignedNumber?_before hrest h
    cases cs with
    | nil => cases h
    | cons c cs =>
      rw [List.cons_append, number?]
      · exact hlonger
      · exact fun tail heq => hsign cs (by rw [(List.cons.inj heq).1])

/-- A number starts with a digit or a minus sign. -/
theorem exists_start_of_number? {cs after : List Char} {n : Option Number}
    (h : number? cs = some (n, after)) :
    ∃ c tail, cs = c :: tail ∧ (c = '-' ∨ isAsciiDigit c = true) := by
  unfold number? at h
  split at h
  · exact ⟨_, _, rfl, .inl rfl⟩
  · simp only [unsignedNumber?, bind, Option.bind_eq_some_iff] at h
    obtain ⟨⟨whole, cs₁⟩, hwhole, -⟩ := h
    unfold wholePart? at hwhole
    split at hwhole
    · exact ⟨_, _, rfl, .inr rfl⟩
    · split at hwhole
      · exact ⟨_, _, rfl, .inr ‹_›⟩
      · cases hwhole
    · cases hwhole

/-- The text of a number is read as the number. -/
def ReadsBack (n : Number) : Prop := number? n.text.toList = some (some n, [])

/-- The text of a number is read as the number, whatever stands behind it. -/
theorem next?_number {n : Number} (h : ReadsBack n) {rest : List Char} (hrest : Ends rest) :
    next? (n.text.toList ++ rest) = some (.number (some n), rest) := by
  have hread := number?_before hrest h
  obtain ⟨c, tail, htext, hc⟩ := exists_start_of_number? h
  rw [htext, List.cons_append] at hread ⊢
  have hnext : next? (c :: (tail ++ rest)) =
      (number? (c :: (tail ++ rest))).map fun p => (number p.1, p.2) := by
    unfold next?
    split
    case h_11 => rfl
    all_goals
      rename_i heq
      rw [(List.cons.inj heq).1] at hc
      exact absurd hc (by decide)
  rw [hnext, hread]
  rfl

/-! ## Whole numbers -/

theorem ofDigits_toDigits (n : Nat) : Decimal.ofDigits (Nat.toDigits 10 n) = n :=
  Nat.ofDigitChars_eq_foldl.symm.trans Nat.ofDigitChars_ten_toDigits

theorem isAsciiDigit_of_mem_toDigits {n : Nat} {c : Char} (h : c ∈ Nat.toDigits 10 n) :
    isAsciiDigit c = true :=
  isAsciiDigit_of_mem_toString ((toList_toString n).symm ▸ h)

/-- Only zero is written with a zero in front. -/
theorem head_toDigits_ne_zero {n : Nat} (h : 0 < n) :
    ∀ c ∈ (Nat.toDigits 10 n).head?, c ≠ '0' := by
  induction n using Nat.strongRecOn with
  | ind n ih =>
    intro c hc
    rw [Nat.toDigits_eq_if (by decide)] at hc
    by_cases hlt : n < 10
    · rw [if_pos hlt] at hc
      obtain rfl := Option.some.inj hc
      exact fun hzero => absurd (Nat.digitChar_eq_zero.1 hzero) (by omega)
    · rw [if_neg hlt, List.head?_append_of_ne_nil _ Nat.toDigits_ne_nil] at hc
      exact ih (n / 10) (by omega) (by omega) c hc

theorem wholePart?_toDigits (n : Nat) :
    wholePart? (Nat.toDigits 10 n) = some (Nat.toDigits 10 n, []) := by
  rcases Nat.eq_zero_or_pos n with rfl | hpos
  · rfl
  have hdigit : ∀ c ∈ Nat.toDigits 10 n, isAsciiDigit c = true :=
    fun c hc => isAsciiDigit_of_mem_toDigits hc
  have hhead := head_toDigits_ne_zero hpos
  cases hdigits : Nat.toDigits 10 n with
  | nil => exact absurd hdigits Nat.toDigits_ne_nil
  | cons c cs =>
    rw [hdigits] at hdigit hhead
    have hc : isAsciiDigit c = true := hdigit c List.mem_cons_self
    have hcs : ∀ d ∈ cs, isAsciiDigit d = true := fun d hd => hdigit d (List.mem_cons_of_mem c hd)
    have htake : cs.takeWhile isAsciiDigit = cs := List.takeWhile_eq_self_iff.2 hcs
    have hdrop : cs.dropWhile isAsciiDigit = [] := List.dropWhile_eq_nil_iff.2 hcs
    unfold wholePart?
    split
    · rename_i heq
      exact absurd (List.cons.inj heq).1 (hhead c rfl)
    · rename_i heq
      obtain ⟨rfl, rfl⟩ := List.cons.inj heq
      rw [if_pos hc, htake, hdrop]
    · rename_i heq
      cases heq

theorem unsignedNumber?_toDigits (negative : Bool) (n : Nat) :
    unsignedNumber? negative (Nat.toDigits 10 n) =
      some (numberOf? negative (Nat.toDigits 10 n) [] none, []) := by
  simp only [unsignedNumber?, wholePart?_toDigits, bind, Option.bind_some, fractionPart?,
    exponentPart?, pure]

theorem numberOf?_toDigits {i : Int} (fits : -Nat.pow 2 63 ≤ i ∧ i < Nat.pow 2 64) {n : Nat}
    {negative : Bool} (hi : i = if negative then -(n : Int) else n)
    (hzero : negative = true → n ≠ 0) :
    numberOf? negative (Nat.toDigits 10 n) [] none = some (.int i fits) := by
  have hint : Number.ofInt? i = some (.int i fits) := by
    rw [Number.ofInt?, dif_pos fits]
  unfold numberOf?
  rw [ofDigits_toDigits]
  cases negative with
  | false =>
    rw [if_neg Bool.false_ne_true] at hi
    simp [← hi, hint]
  | true =>
    rw [if_pos rfl] at hi
    simp [← hi, hint, hzero rfl]

/-- A whole number is read from the text of it. -/
theorem readsBack_int (i : Int) (fits : -Nat.pow 2 63 ≤ i ∧ i < Nat.pow 2 64) :
    ReadsBack (.int i fits) := by
  have htext : (Number.int i fits).text = if 0 ≤ i then toString i.toNat
      else "-" ++ toString (-i).toNat := by
    exact Int.repr_eq_if
  unfold ReadsBack
  rw [htext]
  by_cases hi : 0 ≤ i
  · have hread := unsignedNumber?_toDigits false i.toNat
    rw [numberOf?_toDigits fits (by simp; omega) (by simp)] at hread
    rw [if_pos hi, toList_toString, number?]
    · exact hread
    · intro cs hcs
      have hminus : '-' ∈ Nat.toDigits 10 i.toNat := hcs ▸ List.mem_cons_self
      exact absurd (isAsciiDigit_of_mem_toDigits hminus) (by decide)
  · have hread := unsignedNumber?_toDigits true (-i).toNat
    rw [numberOf?_toDigits fits (by simp; omega) (by omega)] at hread
    rw [if_neg hi, String.toList_append, toList_toString]
    exact hread

end Token

end WidgetSchema
