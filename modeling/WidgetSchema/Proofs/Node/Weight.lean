-- What strings weigh. Some characters have a weight, and an escape with digits weighs as much as
-- any of them. So the strings of a tree weigh no more than the text that the tree is read from,
-- and the text that they are written as weighs no more than they do.
import Mathlib.Algebra.GroupWithZero.Nat
import WidgetSchema.Proofs.Node.Lexemes
import WidgetSchema.Proofs.Node.Text
namespace WidgetSchema

/-! ## The weight of characters -/

/-- The weight of a character. An entity ends in the first of those with a weight, and a value in
single quotes in the second. The others are written with digits. -/
def charWeight (c : Char) : Nat :=
  if c = ';' then 2
  else if c = '\'' then 1
  else if c.toNat < 0x20 ∧ c ∉ ['\x08', '\x0c', '\n', '\r', '\t'] then 2
  else 0

theorem charWeight_le (c : Char) : charWeight c ≤ 2 := by
  unfold charWeight
  repeat' split
  all_goals decide

def weight (cs : List Char) : Nat := (cs.map charWeight).sum

@[simp] theorem weight_nil : weight [] = 0 := rfl

@[simp] theorem weight_cons (c : Char) (cs : List Char) :
    weight (c :: cs) = charWeight c + weight cs := rfl

@[simp] theorem weight_append (as bs : List Char) : weight (as ++ bs) = weight as + weight bs := by
  rw [weight, List.map_append, List.sum_append]
  rfl

theorem weight_eq_zero {cs : List Char} (h : ∀ c ∈ cs, charWeight c = 0) : weight cs = 0 := by
  induction cs with
  | nil => rfl
  | cons c cs ih =>
    rw [weight_cons, h c List.mem_cons_self, ih fun d hd => h d (List.mem_cons_of_mem c hd)]

/-! ## The weight of text -/

/-- The weight of JSON text, also right behind a backslash. An escape with digits weighs 2, and
its digits weigh nothing. -/
def textWeight : Bool → List Char → Nat
  | _, [] => 0
  | escaped, c :: cs =>
    (if escaped && c == 'u' then 2 else charWeight c) + textWeight (!escaped && c == '\\') cs

theorem textWeight_cons {c : Char} (hc : c ≠ '\\') (cs : List Char) :
    textWeight false (c :: cs) = charWeight c + textWeight false cs := by
  rw [textWeight, Bool.false_and, if_neg (by decide), Bool.not_false, Bool.true_and,
    beq_eq_false_iff_ne.2 hc]

/-- What is no part of an escape weighs the same behind a backslash. -/
theorem textWeight_any {c : Char} (h : c ≠ 'u' ∧ c ≠ '\\') (escaped : Bool) (cs : List Char) :
    textWeight escaped (c :: cs) = charWeight c + textWeight false cs := by
  rw [textWeight, beq_eq_false_iff_ne.2 h.1, beq_eq_false_iff_ne.2 h.2, Bool.and_false,
    Bool.and_false, if_neg (by decide)]

theorem textWeight_mark {c : Char} (h : charWeight c = 0 ∧ c ≠ '\\') (cs : List Char) :
    textWeight false (c :: cs) = textWeight false cs := by
  rw [textWeight_cons h.2, h.1, Nat.zero_add]

theorem textWeight_le_cons {c : Char} (hc : c ≠ '\\') (cs : List Char) :
    textWeight false cs ≤ textWeight false (c :: cs) := by
  rw [textWeight_cons hc]
  exact Nat.le_add_left _ _

theorem textWeight_plain {cs : List Char} (h : '\\' ∉ cs) (more : List Char) :
    textWeight false (cs ++ more) = weight cs + textWeight false more := by
  induction cs with
  | nil => simp
  | cons c cs ih =>
    rw [List.mem_cons, not_or] at h
    rw [List.cons_append, textWeight_cons (Ne.symm h.1), ih h.2, weight_cons, Nat.add_assoc]

theorem weight_le_textWeight (escaped : Bool) (cs : List Char) :
    weight cs ≤ textWeight escaped cs := by
  induction cs generalizing escaped with
  | nil => exact Nat.le_refl _
  | cons c cs ih =>
    rw [weight_cons, textWeight]
    refine Nat.add_le_add ?_ (ih _)
    split
    · exact charWeight_le c
    · exact Nat.le_refl _

/-- An apostrophe ends an escape and adds its own weight. -/
theorem textWeight_apostrophe (escaped : Bool) (before more : List Char) :
    textWeight escaped (before ++ '\'' :: more) =
      textWeight escaped before + 1 + textWeight false more := by
  induction before generalizing escaped with
  | nil => cases escaped <;> rfl
  | cons c before ih =>
    rw [List.cons_append, textWeight, textWeight, ih]
    simp only [Nat.add_assoc]

theorem textWeight_pos {cs : List Char} (h : '\'' ∈ cs) (escaped : Bool) :
    0 < textWeight escaped cs := by
  obtain ⟨before, more, rfl⟩ := List.append_of_mem h
  rw [textWeight_apostrophe]
  omega

theorem textWeight_dropWhile_le {p : Char → Bool} (hp : p '\\' = false) (cs : List Char) :
    textWeight false (cs.dropWhile p) ≤ textWeight false cs := by
  induction cs with
  | nil => exact Nat.le_refl _
  | cons c cs ih =>
    rcases hc : p c with _ | _
    · rw [List.dropWhile_cons_of_neg (by simp [hc])]
    · have hback : c ≠ '\\' := by
        rintro rfl
        cases hp.symm.trans hc
      rw [List.dropWhile_cons_of_pos hc]
      exact Nat.le_trans ih (textWeight_le_cons hback cs)

/-! ## Strings as they are written -/

theorem textWeight_letter {letter c : Char} (hletter : letter ≠ 'u' ∧ charWeight letter = 0)
    (hc : charWeight c = 0) (more : List Char) :
    textWeight false (['\\', letter] ++ more) = charWeight c + textWeight false more := by
  have hback : charWeight '\\' = 0 := by decide
  simp [textWeight, hback, hletter.1, hletter.2, hc]

theorem charWeight_hexDigit : ∀ n < 16,
    charWeight (Node.hexDigit n) = 0 ∧ (Node.hexDigit n == '\\') = false := by
  decide

theorem textWeight_digits {c : Char} (hcontrol : c.toNat < 0x20)
    (hletter : c ∉ ['\x08', '\x0c', '\n', '\r', '\t']) (more : List Char) :
    textWeight false (['\\', 'u', '0', '0', Node.hexDigit (c.toNat / 16),
      Node.hexDigit (c.toNat % 16)] ++ more) = charWeight c + textWeight false more := by
  have hback : charWeight '\\' = 0 := by decide
  have hzero : charWeight '0' = 0 := by decide
  have hc : charWeight c = 2 := by
    have hnot : ∀ d, 0x20 ≤ d.toNat → c ≠ d := by
      rintro d hd rfl
      omega
    rw [charWeight, if_neg (hnot ';' (by decide)), if_neg (hnot '\'' (by decide)),
      if_pos ⟨hcontrol, hletter⟩]
  obtain ⟨hfirst, hfirst'⟩ := charWeight_hexDigit (c.toNat / 16) (by omega)
  obtain ⟨hlast, hlast'⟩ := charWeight_hexDigit (c.toNat % 16) (by omega)
  simp [textWeight, hback, hzero, hfirst, hfirst', hlast, hlast', hc]

/-- What a character is written as has the weight of the character. -/
theorem textWeight_escapeChar (c : Char) (more : List Char) :
    textWeight false (Node.escapeChar c ++ more) = charWeight c + textWeight false more := by
  unfold Node.escapeChar
  by_cases hquote : c = '"'
  · subst hquote
    exact textWeight_letter (by decide) (by decide) more
  by_cases hback : c = '\\'
  · subst hback
    exact textWeight_letter (by decide) (by decide) more
  by_cases hletter : c ∈ ['\x08', '\x0c', '\n', '\r', '\t']
  · simp only [List.mem_cons, List.not_mem_nil, or_false] at hletter
    rcases hletter with rfl | rfl | rfl | rfl | rfl <;>
      exact textWeight_letter (by decide) (by decide) more
  have hletters := hletter
  simp only [List.mem_cons, List.not_mem_nil, or_false, not_or] at hletters
  obtain ⟨hb, hf, hn, hr, ht⟩ := hletters
  rw [if_neg hquote, if_neg hback, if_neg hb, if_neg hf, if_neg hn, if_neg hr, if_neg ht]
  split
  · rename_i hcontrol
    exact textWeight_digits hcontrol hletter more
  · exact textWeight_cons hback more

theorem textWeight_quoted (s : String) (more : List Char) :
    textWeight false ((Node.quoted s).toList ++ more) =
      weight s.toList + textWeight false more := by
  have hchars (cs : List Char) :
      textWeight false (cs.flatMap Node.escapeChar ++ '"' :: more) =
        weight cs + textWeight false more := by
    induction cs with
    | nil => rw [List.flatMap_nil, List.nil_append, textWeight_cons (by decide)]; rfl
    | cons c cs ih =>
      rw [List.flatMap_cons, List.append_assoc, textWeight_escapeChar, ih, weight_cons,
        Nat.add_assoc]
  have hwritten : (Node.quoted s).toList ++ more =
      '"' :: (s.toList.flatMap Node.escapeChar ++ '"' :: more) := by
    rw [Node.quoted, String.toList_ofList]
    simp
  rw [hwritten, textWeight_cons (by decide), hchars]
  exact Nat.zero_add _

/-! ## Lexemes -/

namespace Token

variable {cs rest : List Char}

def StringPart.weight : StringPart → Nat
  | .char c => charWeight c
  | .unit _ => 2

def partsWeight (parts : List StringPart) : Nat := (parts.map StringPart.weight).sum

theorem charWeight_of_escaped? {c e : Char} (h : escaped? c = some e) : charWeight e = 0 := by
  unfold escaped? at h
  split at h
  case h_9 => cases h
  all_goals
    obtain rfl := Option.some.inj h
    decide

theorem ne_of_hexDigit? {c : Char} {n : Nat} (h : hexDigit? c = some n) : c ≠ '\\' := by
  rintro rfl
  cases h

theorem weight_of_stringPart? {p : StringPart} (h : stringPart? cs = some (p, rest)) :
    p.weight + textWeight false rest ≤ textWeight false cs := by
  unfold stringPart? at h
  split at h
  · cases h
  · rename_i a b c d cs
    obtain ⟨u, hu, he⟩ := Option.map_eq_some_iff.1 h
    obtain ⟨rfl, rfl⟩ := Prod.mk.inj he
    simp only [unit?, bind, Option.bind_eq_some_iff] at hu
    obtain ⟨m, ha, n, hb, k, hc, l, hd, -⟩ := hu
    have hdigits : textWeight false cs ≤ textWeight false (a :: b :: c :: d :: cs) :=
      Nat.le_trans (textWeight_le_cons (ne_of_hexDigit? hd) _)
        (Nat.le_trans (textWeight_le_cons (ne_of_hexDigit? hc) _)
          (Nat.le_trans (textWeight_le_cons (ne_of_hexDigit? hb) _)
            (textWeight_le_cons (ne_of_hexDigit? ha) _)))
    have hescape : textWeight false ('\\' :: 'u' :: a :: b :: c :: d :: cs) =
        charWeight '\\' + (2 + textWeight false (a :: b :: c :: d :: cs)) := rfl
    rw [hescape, StringPart.weight]
    omega
  · rename_i c cs _
    obtain ⟨e, he, heq⟩ := Option.map_eq_some_iff.1 h
    obtain ⟨rfl, rfl⟩ := Prod.mk.inj heq
    rw [StringPart.weight, charWeight_of_escaped? he, Nat.zero_add]
    simp only [textWeight, Bool.not_false, Bool.true_and, beq_self_eq_true, Bool.not_true,
      Bool.false_and]
    omega
  · rename_i c cs _ _
    split at h
    · cases h
    · rename_i hc
      obtain ⟨rfl, rfl⟩ := Prod.mk.inj (Option.some.inj h)
      simp only [Bool.or_eq_true, decide_eq_true_eq, not_or] at hc
      rw [textWeight_cons hc.1.1, StringPart.weight]

theorem weight_of_stringBody? {body : List StringPart} (h : stringBody? cs = some (body, rest)) :
    partsWeight body + textWeight false rest ≤ textWeight false cs := by
  fun_induction stringBody? cs generalizing body rest with
  | case1 after =>
    obtain ⟨rfl, rfl⟩ := Prod.mk.inj (Option.some.inj h)
    have hle := textWeight_le_cons (show '"' ≠ '\\' by decide) after
    simpa [partsWeight] using hle
  | case2 => cases h
  | case3 cs _ p after hp _ ih =>
    obtain ⟨⟨b, r⟩, hb, he⟩ := Option.map_eq_some_iff.1 h
    obtain ⟨rfl, rfl⟩ := Prod.mk.inj he
    have hpart := weight_of_stringPart? hp
    have hbody := ih hb
    simp only [partsWeight, List.map_cons, List.sum_cons] at hbody ⊢
    omega

/-- What parts are put together to weighs no more than the parts. -/
theorem weight_of_assemble? {parts : List StringPart} {cs : List Char}
    (h : assemble? parts = some cs) : weight cs ≤ partsWeight parts := by
  fun_induction assemble? parts generalizing cs with
  | case1 =>
    cases h
    exact Nat.le_refl 0
  | case2 c ps ih =>
    obtain ⟨ds, hds, rfl⟩ := Option.map_eq_some_iff.1 h
    exact Nat.add_le_add_left (ih hds) _
  | case3 u v ps _ _ ih =>
    obtain ⟨ds, hds, rfl⟩ := Option.map_eq_some_iff.1 h
    have hparts : partsWeight (.unit u :: .unit v :: ps) = 2 + (2 + partsWeight ps) := rfl
    rw [hparts, weight_cons]
    exact Nat.add_le_add (charWeight_le _) (Nat.le_trans (ih hds) (Nat.le_add_left _ _))
  | case4 => cases h
  | case5 => cases h
  | case6 u v ps _ _ ih =>
    obtain ⟨ds, hds, rfl⟩ := Option.map_eq_some_iff.1 h
    exact Nat.add_le_add (charWeight_le _) (ih hds)
  | case7 => cases h
  | case8 u ps _ _ ih =>
    obtain ⟨ds, hds, rfl⟩ := Option.map_eq_some_iff.1 h
    exact Nat.add_le_add (charWeight_le _) (ih hds)

/-! No part of a number has a backslash in it. -/

theorem weight_of_wholePart? {digits : List Char} (h : wholePart? cs = some (digits, rest)) :
    textWeight false rest ≤ textWeight false cs := by
  unfold wholePart? at h
  split at h
  · obtain ⟨-, rfl⟩ := Prod.mk.inj (Option.some.inj h)
    exact textWeight_le_cons (by decide) _
  · rename_i c cs _
    split at h
    · rename_i hc
      obtain ⟨-, rfl⟩ := Prod.mk.inj (Option.some.inj h)
      have hback : c ≠ '\\' := by
        rintro rfl
        cases hc
      exact Nat.le_trans (textWeight_dropWhile_le (by decide) cs) (textWeight_le_cons hback cs)
    · cases h
  · cases h

theorem weight_of_fractionPart? {digits : List Char}
    (h : fractionPart? cs = some (digits, rest)) : textWeight false rest ≤ textWeight false cs := by
  unfold fractionPart? at h
  split at h
  · rename_i cs
    dsimp only at h
    split at h
    · cases h
    · obtain ⟨-, rfl⟩ := Prod.mk.inj (Option.some.inj h)
      exact Nat.le_trans (textWeight_dropWhile_le (by decide) cs)
        (textWeight_le_cons (by decide) cs)
  · obtain ⟨-, rfl⟩ := Prod.mk.inj (Option.some.inj h)
    exact Nat.le_refl _

theorem weight_of_exponentDigits? {negative : Bool} {e : Option Int}
    (h : exponentDigits? negative cs = some (e, rest)) :
    textWeight false rest ≤ textWeight false cs := by
  unfold exponentDigits? at h
  dsimp only at h
  split at h
  · cases h
  · obtain ⟨-, rfl⟩ := Prod.mk.inj (Option.some.inj h)
    exact textWeight_dropWhile_le (by decide) cs

theorem weight_of_exponentPart? {e : Option Int} (h : exponentPart? cs = some (e, rest)) :
    textWeight false rest ≤ textWeight false cs := by
  unfold exponentPart? at h
  split at h
  case h_7 =>
    obtain ⟨-, rfl⟩ := Prod.mk.inj (Option.some.inj h)
    exact Nat.le_refl _
  case h_5 | h_6 =>
    exact Nat.le_trans (weight_of_exponentDigits? h) (textWeight_le_cons (by decide) _)
  all_goals
    exact Nat.le_trans (weight_of_exponentDigits? h) (Nat.le_trans
      (textWeight_le_cons (by decide) _) (textWeight_le_cons (by decide) _))

theorem weight_of_unsignedNumber? {negative : Bool} {n : Option Number}
    (h : unsignedNumber? negative cs = some (n, rest)) :
    textWeight false rest ≤ textWeight false cs := by
  simp only [unsignedNumber?, bind, Option.bind_eq_some_iff, pure, Option.some.injEq,
    Prod.mk.injEq] at h
  obtain ⟨⟨whole, after⟩, hwhole, ⟨fraction, next⟩, hfraction, ⟨e, last⟩, hexponent, -, rfl⟩ := h
  exact Nat.le_trans (weight_of_exponentPart? hexponent)
    (Nat.le_trans (weight_of_fractionPart? hfraction) (weight_of_wholePart? hwhole))

theorem weight_of_number? {n : Option Number} (h : number? cs = some (n, rest)) :
    textWeight false rest ≤ textWeight false cs := by
  unfold number? at h
  split at h
  · exact Nat.le_trans (weight_of_unsignedNumber? h) (textWeight_le_cons (by decide) _)
  · exact weight_of_unsignedNumber? h

/-- Only strings have a weight. -/
def weight : Token → Nat
  | string (some s) => WidgetSchema.weight s.toList
  | _ => 0

theorem weight_of_next? {t : Token} (h : next? cs = some (t, rest)) :
    t.weight + textWeight false rest ≤ textWeight false cs := by
  unfold next? at h
  split at h
  case h_10 =>
    obtain ⟨⟨body, r⟩, hbody, he⟩ := Option.map_eq_some_iff.1 h
    obtain ⟨rfl, rfl⟩ := Prod.mk.inj he
    have hparts := weight_of_stringBody? hbody
    have hstring : (string (stringOf body)).weight ≤ partsWeight body := by
      rcases hchars : assemble? body with _ | ds
      · simp [stringOf, hchars, weight]
      · have hds := weight_of_assemble? hchars
        simpa [stringOf, hchars, weight] using hds
    refine Nat.le_trans (Nat.le_trans (Nat.add_le_add_right hstring _) hparts) ?_
    exact textWeight_le_cons (by decide) _
  case h_11 =>
    obtain ⟨⟨n, r⟩, hn, he⟩ := Option.map_eq_some_iff.1 h
    obtain ⟨rfl, rfl⟩ := Prod.mk.inj he
    have hnumber := weight_of_number? hn
    simpa [weight] using hnumber
  all_goals
    obtain ⟨rfl, rfl⟩ := Prod.mk.inj (Option.some.inj h)
    simp [weight, textWeight] <;> omega

/-- The lexemes of a text weigh no more than the text. -/
theorem weight_of_all? {tokens : List Token} (h : all? cs = some tokens) :
    (tokens.map weight).sum ≤ textWeight false cs := by
  fun_induction all? cs generalizing tokens with
  | case1 =>
    cases h
    exact Nat.zero_le _
  | case2 => cases h
  | case3 cs c rest hd t after hn _ ih =>
    obtain ⟨ts, hts, rfl⟩ := Option.map_eq_some_iff.1 h
    have hspace := textWeight_dropWhile_le (show isSpace '\\' = false by decide) cs
    rw [hd] at hspace
    have hfirst := weight_of_next? hn
    have hlater := ih hts
    rw [List.map_cons, List.sum_cons]
    omega

end Token

end WidgetSchema
