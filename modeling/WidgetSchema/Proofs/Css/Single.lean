-- Values in one piece. What is taken for a colour or a length is a plain word or a call, and of
-- a call only the first and the last parenthesis are looked at. It is one piece just where these
-- two are partners; otherwise the call ends before the text does.
import WidgetSchema.Control.Validation
import WidgetSchema.Proofs.Text.Folded
import WidgetSchema.Proofs.Text.Trim
namespace WidgetSchema.Css

open Text

variable {cs name body word rest : List Char} {c : Char}

/-! ## Plain characters -/

/-- A character that neither cuts nor nests the parts of a background. -/
def isPlain (c : Char) : Bool := c ≠ '(' && c ≠ ')' && c ≠ ',' && !isBlank c

theorem isPlain_iff :
    isPlain c = true ↔ c ≠ '(' ∧ c ≠ ')' ∧ c ≠ ',' ∧ isBlank c = false := by
  simp [isPlain, and_assoc]

theorem isPlain_of_ascii (hlow : 0x2D ≤ c.toNat) (hhigh : c.toNat < 0x80) : isPlain c = true := by
  refine isPlain_iff.2 ⟨?_, ?_, ?_, ?_⟩
  · rintro rfl
    exact absurd hlow (by decide)
  · rintro rfl
    exact absurd hlow (by decide)
  · rintro rfl
    exact absurd hlow (by decide)
  · simp only [isBlank, Bool.or_eq_false_iff, Bool.and_eq_false_iff, decide_eq_false_iff_not,
      beq_eq_false_iff_ne]
    omega

/-- No digit of any script is blank. -/
theorem isPlain_of_isDecimalDigit (h : isDecimalDigit c = true) : isPlain c = true := by
  unfold isDecimalDigit at h
  split at h
  · rename_i hascii
    simp only [Bool.and_eq_true, decide_eq_true_eq, Char.le_def, UInt32.le_iff_toNat_le] at h
    have h48 : '0'.val.toNat = 48 := rfl
    have hval : c.val.toNat = c.toNat := rfl
    exact isPlain_of_ascii (by omega) hascii
  · rename_i hbeyond
    have hapart : ∀ r ∈ decimalDigitRanges, 0xA0 < r.1 ∧ (r.2 < 0x1680 ∨ 0x1680 < r.1) ∧
        (r.2 < 0x2000 ∨ 0x205F < r.1) ∧ (r.2 < 0x3000 ∨ 0x3000 < r.1) := by decide
    obtain ⟨r, hr, hin⟩ := List.any_eq_true.1 h
    have hr := hapart r hr
    simp only [Bool.and_eq_true, decide_eq_true_eq] at hin
    refine isPlain_iff.2 ⟨?_, ?_, ?_, ?_⟩
    · rintro rfl
      exact absurd hbeyond (by decide)
    · rintro rfl
      exact absurd hbeyond (by decide)
    · rintro rfl
      exact absurd hbeyond (by decide)
    · simp only [isBlank, Bool.or_eq_false_iff, Bool.and_eq_false_iff, decide_eq_false_iff_not,
        beq_eq_false_iff_ne]
      omega

/-- A character that is made small was plain if the small one is. -/
theorem isPlain_of_toLower (h : isPlain c.toLower = true) : isPlain c = true := by
  unfold Char.toLower at h
  split at h
  · rename_i hupper
    simp only [ge_iff_le, UInt32.le_iff_toNat_le] at hupper
    have h65 : 'A'.val.toNat = 65 := rfl
    have h90 : 'Z'.val.toNat = 90 := rfl
    have hval : c.val.toNat = c.toNat := rfl
    exact isPlain_of_ascii (by omega) (by omega)
  · exact h

theorem isPlain_of_foldCase (h : isPlain (foldCase c) = true) : isPlain c = true := by
  unfold foldCase at h
  split at h
  · rename_i hlong
    subst hlong
    decide
  · split at h
    · rename_i hkelvin
      subst hkelvin
      decide
    · exact isPlain_of_toLower h

/-! ## Words and calls -/

structure IsWord (cs : List Char) : Prop where
  ne_nil : cs ≠ []
  plain : ∀ c ∈ cs, isPlain c = true

theorem IsWord.notMem_open (h : IsWord cs) : '(' ∉ cs := fun hmem =>
  (isPlain_iff.1 (h.plain _ hmem)).1 rfl

theorem isWord_of_map {fold : Char → Char} (hfold : ∀ c, isPlain (fold c) = true → isPlain c = true)
    (h : IsWord (cs.map fold)) : IsWord cs where
  ne_nil hnil := h.ne_nil (by rw [hnil]; rfl)
  plain c hc := hfold c (h.plain _ (List.mem_map_of_mem hc))

/-- A name with a text in parentheses behind it. -/
def call (name body : List Char) : List Char := name ++ '(' :: (body ++ [')'])

/-- A plain word, or a call whose name is such a word. -/
inductive HasForm : List Char → Prop
  | word {cs : List Char} : IsWord cs → HasForm cs
  | call {name : List Char} (body : List Char) : IsWord name → HasForm (call name body)

/-- A plain word, or a call in whose body every parenthesis has its partner. -/
inductive IsSingle : List Char → Prop
  | word {cs : List Char} : IsWord cs → IsSingle cs
  | call {name body : List Char} : IsWord name → isBalanced body = true →
      IsSingle (call name body)

/-- Whether the first parenthesis that opens, if there is one, is closed by the last
character. -/
def closesLast (cs : List Char) : Bool :=
  match cs.dropWhile (· ≠ '(') with
  | [] => true
  | _ :: rest => isBalanced rest.dropLast

theorem closesLast_word (h : IsWord cs) : closesLast cs = true := by
  have hnone : cs.dropWhile (· ≠ '(') = [] := by
    rw [List.dropWhile_eq_nil_iff]
    intro c hc
    simpa using (isPlain_iff.1 (h.plain c hc)).1
  rw [closesLast, hnone]

theorem closesLast_call (h : IsWord name) : closesLast (call name body) = isBalanced body := by
  have hname : ∀ c ∈ name, decide (c ≠ '(') = true := fun c hc => by
    simpa using (isPlain_iff.1 (h.plain c hc)).1
  have hopen : (call name body).dropWhile (· ≠ '(') = '(' :: (body ++ [')']) := by
    rw [call, List.dropWhile_append_of_pos hname]
    rfl
  rw [closesLast, hopen]
  simp

theorem isSingle_iff (h : HasForm cs) : IsSingle cs ↔ closesLast cs = true := by
  constructor
  · rintro (hword | ⟨hname, hbody⟩)
    · exact closesLast_word hword
    · rw [closesLast_call hname, hbody]
  · intro hcloses
    cases h with
    | word hword => exact .word hword
    | call body hname => exact .call hname (closesLast_call hname ▸ hcloses)

/-! ## Nesting -/

theorem nesting?_other (hopen : c ≠ '(') (hclose : c ≠ ')') (depth : Nat) :
    nesting? depth (c :: cs) = nesting? depth cs := by
  rw [nesting?]
  · exact hopen
  · exact fun _ => hclose
  · exact fun _ _ => hclose

theorem ne_close {depth : Nat} (hzero : depth = 0 → c = ')' → False)
    (hsucc : ∀ n : Nat, depth = n.succ → c = ')' → False) : c ≠ ')' := by
  cases depth with
  | zero => exact hzero rfl
  | succ n => exact hsucc n rfl

theorem nesting?_word (h : ∀ c ∈ word, isPlain c = true) (depth : Nat) :
    nesting? depth (word ++ cs) = nesting? depth cs := by
  induction word with
  | nil => rfl
  | cons c word ih =>
    obtain ⟨hopen, hclose, -, -⟩ := isPlain_iff.1 (h c List.mem_cons_self)
    rw [List.cons_append, nesting?_other hopen hclose,
      ih fun d hd => h d (List.mem_cons_of_mem c hd)]

theorem nesting?_append (depth : Nat) (as bs : List Char) :
    nesting? depth (as ++ bs) = (nesting? depth as).bind fun last => nesting? last bs := by
  fun_induction nesting? depth as with
  | case1 depth => rfl
  | case2 depth cs ih => rw [List.cons_append, nesting?, ih]
  | case3 cs => rfl
  | case4 depth cs ih => rw [List.cons_append, nesting?, ih]
  | case5 depth c cs hopen hzero hsucc ih =>
    rw [List.cons_append, nesting?_other hopen (ne_close hzero hsucc), ih]

/-- Deeper down a text nests as it does further up. -/
theorem nesting?_deeper {depth last : Nat} (h : nesting? depth cs = some last) :
    nesting? (depth + 1) cs = some (last + 1) := by
  fun_induction nesting? depth cs with
  | case1 depth =>
    cases h
    rfl
  | case2 depth cs ih =>
    rw [nesting?]
    exact ih h
  | case3 cs => cases h
  | case4 depth cs ih =>
    rw [nesting?]
    exact ih h
  | case5 depth c cs hopen hzero hsucc ih =>
    rw [nesting?_other hopen (ne_close hzero hsucc)]
    exact ih h

theorem isBalanced_single (h : IsSingle cs) : isBalanced cs = true := by
  rw [isBalanced, beq_iff_eq]
  cases h with
  | word hword =>
    rw [← List.append_nil cs, nesting?_word hword.plain]
    rfl
  | call hname hbody =>
    rw [isBalanced, beq_iff_eq] at hbody
    rw [call, nesting?_word hname.plain, nesting?, nesting?_append,
      nesting?_deeper hbody]
    rfl

/-! ## Parts of a background -/

theorem backgroundParts_plain (h : isPlain c = true) (depth : Nat) (part : List Char) :
    backgroundParts depth part (c :: cs) = backgroundParts depth (c :: part) cs := by
  obtain ⟨hopen, hclose, hcomma, hblank⟩ := isPlain_iff.1 h
  rw [backgroundParts]
  · simp [hcomma, hblank]
  · exact hopen
  · exact hclose

theorem backgroundParts_word (h : ∀ c ∈ word, isPlain c = true) (depth : Nat)
    (part : List Char) :
    backgroundParts depth part (word ++ cs) = backgroundParts depth (word.reverse ++ part) cs := by
  induction word generalizing part with
  | nil => rfl
  | cons c word ih =>
    rw [List.cons_append, backgroundParts_plain (h c List.mem_cons_self),
      ih (fun d hd => h d (List.mem_cons_of_mem c hd)), List.reverse_cons, List.append_assoc]
    rfl

/-- Within parentheses nothing is cut. -/
theorem backgroundParts_nested {depth last : Nat} (h : nesting? depth body = some last)
    {part : List Char} (hpart : part ≠ []) :
    backgroundParts (depth + 1) part (body ++ cs) =
      backgroundParts (last + 1) (body.reverse ++ part) cs := by
  fun_induction nesting? depth body generalizing part with
  | case1 depth =>
    cases h
    rfl
  | case2 depth body ih =>
    rw [List.cons_append, backgroundParts, ih h (List.cons_ne_nil _ _), List.reverse_cons,
      List.append_assoc]
    rfl
  | case3 body => cases h
  | case4 depth body ih =>
    have hfull : part.isEmpty = false := by simpa using hpart
    rw [List.cons_append, backgroundParts, hfull, Nat.add_sub_cancel, List.reverse_cons,
      List.append_assoc]
    exact ih h (List.cons_ne_nil _ _)
  | case5 depth c body hopen hzero hsucc ih =>
    rw [List.cons_append, backgroundParts, if_neg (by simp), ih h (List.cons_ne_nil _ _),
      List.reverse_cons, List.append_assoc]
    · rfl
    · exact hopen
    · exact ne_close hzero hsucc

theorem backgroundParts_nil {part : List Char} (h : part ≠ []) (depth : Nat) :
    backgroundParts depth part [] = [part.reverse] := by
  obtain ⟨c, part, rfl⟩ := List.exists_cons_of_ne_nil h
  rfl

/-- So what is in one piece is one part. -/
theorem backgroundParts_single (h : IsSingle cs) : backgroundParts 0 [] cs = [cs] := by
  cases h with
  | word hword =>
    have hparts := @backgroundParts_word [] cs hword.plain 0 []
    have hend := backgroundParts_nil (List.reverse_ne_nil_iff.2 hword.ne_nil) 0
    rw [List.append_nil, List.append_nil] at hparts
    rw [hparts, hend, List.reverse_reverse]
  | @call name body hname hbody =>
    rw [isBalanced, beq_iff_eq] at hbody
    have hclose : ∀ part, part ≠ [] → backgroundParts 1 part [')'] = [part.reverse ++ [')']] := by
      intro part hpart
      have hfull : part.isEmpty = false := by simpa using hpart
      rw [backgroundParts, hfull, if_neg Bool.false_ne_true,
        backgroundParts_nil (List.cons_ne_nil _ _), List.reverse_cons]
    rw [call, backgroundParts_word hname.plain, backgroundParts,
      backgroundParts_nested hbody (List.cons_ne_nil _ _), hclose _ (by simp)]
    simp

/-! ## Numbers -/

/-- A character that a number is written with. -/
def isNumberChar (c : Char) : Bool := isDecimalDigit c || c == '-' || c == '.'

theorem isPlain_of_isNumberChar (h : isNumberChar c = true) : isPlain c = true := by
  simp only [isNumberChar, Bool.or_eq_true, beq_iff_eq] at h
  rcases h with (h | rfl) | rfl
  · exact isPlain_of_isDecimalDigit h
  · decide
  · decide

/-- What follows a number without a sign. -/
def afterUnsigned? (digits : List Char) : Option (List Char) :=
  if (digits.takeWhile isDecimalDigit).isEmpty then none
  else
    match digits.dropWhile isDecimalDigit with
    | '.' :: fraction =>
      if (fraction.takeWhile isDecimalDigit).isEmpty then some ('.' :: fraction)
      else some (fraction.dropWhile isDecimalDigit)
    | rest => some rest

theorem afterNumber?_minus (cs : List Char) : afterNumber? ('-' :: cs) = afterUnsigned? cs := rfl

theorem afterNumber?_unsigned (h : cs.head? ≠ some '-') : afterNumber? cs = afterUnsigned? cs := by
  unfold afterNumber?
  split
  · exact absurd rfl h
  · rfl

theorem append_of_afterUnsigned? (h : afterUnsigned? cs = some rest) :
    ∃ number, cs = number ++ rest ∧ number ≠ [] ∧ ∀ c ∈ number, isNumberChar c = true := by
  have hdigit : ∀ {digits : List Char}, ∀ c ∈ digits.takeWhile isDecimalDigit,
      isNumberChar c = true := fun c hc => by
    simp [isNumberChar, List.mem_takeWhile_imp hc]
  have hsplit := (List.takeWhile_append_dropWhile (p := isDecimalDigit) (l := cs)).symm
  unfold afterUnsigned? at h
  split at h
  · cases h
  · rename_i hfirst
    have hne : cs.takeWhile isDecimalDigit ≠ [] := by simpa using hfirst
    split at h
    · rename_i fraction hfraction
      split at h
      · cases h
        exact ⟨_, hfraction ▸ hsplit, hne, hdigit⟩
      · cases h
        refine ⟨cs.takeWhile isDecimalDigit ++ '.' :: fraction.takeWhile isDecimalDigit, ?_,
          by simp, ?_⟩
        · rw [List.append_assoc, List.cons_append, List.takeWhile_append_dropWhile, ← hfraction]
          exact hsplit
        · intro c hc
          rcases List.mem_append.1 hc with hc | hc
          · exact hdigit c hc
          · rcases List.mem_cons.1 hc with rfl | hc
            · decide
            · exact hdigit c hc
    · cases h
      exact ⟨_, hsplit, hne, hdigit⟩

/-- A number stands in front of what follows it. -/
theorem append_of_afterNumber? (h : afterNumber? cs = some rest) :
    ∃ number, cs = number ++ rest ∧ number ≠ [] ∧ ∀ c ∈ number, isNumberChar c = true := by
  by_cases hsign : cs.head? = some '-'
  · obtain ⟨cs, rfl⟩ := List.head?_eq_some_iff.1 hsign
    obtain ⟨number, rfl, -, hnumber⟩ := append_of_afterUnsigned? (afterNumber?_minus cs ▸ h)
    refine ⟨'-' :: number, rfl, List.cons_ne_nil _ _, fun c hc => ?_⟩
    rcases List.mem_cons.1 hc with rfl | hc
    · decide
    · exact hnumber c hc
  · exact append_of_afterUnsigned? (afterNumber?_unsigned hsign ▸ h)

/-! ## Accepted values -/

theorem call_of_callBody? {fold : Char → Char} {names : List String}
    (h : callBody? fold names cs = some body) :
    ∃ name, String.ofList (name.map fold) ∈ names ∧ cs = call name body := by
  obtain ⟨word, hword, hbody⟩ := List.exists_of_findSome?_eq_some h
  split at hbody
  · rename_i rest hdrop
    split at hbody
    · rename_i hlast
      cases hbody
      obtain ⟨name, rfl, hname⟩ := dropFolded_eq_some_iff.1 hdrop
      obtain ⟨body, rfl⟩ := List.getLast?_eq_some_iff.1 hlast
      refine ⟨name, by rwa [hname, String.ofList_toList], ?_⟩
      rw [List.dropLast_concat]
      rfl
    · cases hbody
  · cases hbody

/-- The words of a list that holds plain words only. -/
theorem isWord_of_mem {words : List String} (h : String.ofList cs ∈ words)
    (hwords : ∀ s ∈ words, s ≠ "" ∧ s.toList.all isPlain = true) : IsWord cs where
  ne_nil hnil := (hwords _ h).1 (by rw [hnil])
  plain := by
    have hall := (hwords _ h).2
    rw [String.toList_ofList, List.all_eq_true] at hall
    exact hall

theorem hasForm_of_isLength {s : String} (h : isLength s = true) :
    HasForm (trimChars s.toList) := by
  simp only [isLength, Bool.or_eq_true] at h
  rcases h with (hzero | hcall) | hunit
  · rw [List.contains_iff_mem] at hzero
    exact .word (isWord_of_mem hzero (by decide))
  · obtain ⟨body, hbody, -⟩ := (Option.any_eq_true _ _).1 hcall
    obtain ⟨name, hname, hcs⟩ := call_of_callBody? hbody
    rw [List.map_id] at hname
    rw [hcs]
    exact .call body (isWord_of_mem hname (by decide))
  · obtain ⟨unit, hunit, hmem⟩ := (Option.any_eq_true _ _).1 hunit
    rw [List.contains_iff_mem] at hmem
    obtain ⟨number, hcs, hne, hnumber⟩ := append_of_afterNumber? hunit
    have hword : IsWord unit := isWord_of_mem hmem (by decide)
    refine .word ⟨by simp [hcs, hne], fun c hc => ?_⟩
    rw [hcs] at hc
    rcases List.mem_append.1 hc with hc | hc
    · exact isPlain_of_isNumberChar (hnumber c hc)
    · exact hword.plain c hc

/-- The names of the calls that are taken for colours. -/
def colorCalls : List String := "var" :: colorFunctions

theorem getLast?_of_suffix {as bs : List Char} (h : as <:+ bs) (hlast : as.getLast? = some c) :
    bs.getLast? = some c := by
  obtain ⟨before, rfl⟩ := h
  rw [List.getLast?_append, hlast]
  rfl

/-- A reference ends with the parenthesis that its call is closed with. -/
theorem call_of_isReference (h : isReference cs = true) : ∃ body, cs = call "var".toList body := by
  unfold isReference at h
  split at h
  · cases h
  · rename_i rest hdrop
    have hopen : "var(".toList = "var".toList ++ ['('] := by decide
    have hcs := dropWord_eq_some_iff.1 hdrop
    rw [hopen, List.append_assoc, List.singleton_append] at hcs
    have hlast : rest.getLast? = some ')' := by
      split at h
      · rename_i name hname
        have hdashes : '-' :: '-' :: name <:+ rest := hname ▸ List.dropWhile_suffix isBlank
        have hrest : name <:+ rest := (List.suffix_append ['-', '-'] name).trans hdashes
        have hafter : (name.dropWhile isNameChar).dropWhile isBlank <:+ rest :=
          (List.dropWhile_suffix _).trans ((List.dropWhile_suffix _).trans hrest)
        rw [Bool.and_eq_true] at h
        replace h := h.2
        split at h
        · rename_i hend
          exact getLast?_of_suffix (hend ▸ hafter) rfl
        · rename_i fallback hcomma
          rw [Bool.and_eq_true, decide_eq_true_eq] at h
          exact getLast?_of_suffix ((List.suffix_cons ',' fallback).trans (hcomma ▸ hafter)) h.1
        · cases h
      · cases h
    obtain ⟨body, rfl⟩ := List.getLast?_eq_some_iff.1 hlast
    exact ⟨body, hcs⟩

theorem isWord_of_isHexColor (h : isHexColor cs = true) : IsWord cs := by
  unfold isHexColor at h
  split at h
  · rename_i digits
    rw [Bool.and_eq_true, List.all_eq_true] at h
    refine ⟨List.cons_ne_nil _ _, fun c hc => ?_⟩
    rcases List.mem_cons.1 hc with rfl | hc
    · decide
    · have hhex := h.1 c hc
      simp only [isHexDigit, isAsciiDigit, Bool.or_eq_true, Bool.and_eq_true, decide_eq_true_eq,
        Char.le_def, UInt32.le_iff_toNat_le, Char.reduceVal, UInt32.reduceToNat] at hhex
      have hval : c.val.toNat = c.toNat := rfl
      exact isPlain_of_ascii (by omega) (by omega)
  · cases h

/-- A colour is a plain word, or a call of one of the functions. -/
theorem form_of_isColor {s : String} (h : isColor s = true) :
    IsWord (trimChars s.toList) ∨ ∃ name body, IsWord name ∧
      String.ofList (name.map foldCase) ∈ colorCalls ∧ trimChars s.toList = call name body := by
  have hlower : ∀ cs, asciiLower (String.ofList cs) = String.ofList (cs.map Char.toLower) := by
    intro cs
    rw [asciiLower, ← String.toList_inj, String.toList_map, String.toList_ofList,
      String.toList_ofList]
  have hkeyword : ∀ words : List String,
      (∀ s ∈ words, s ≠ "" ∧ s.toList.all isPlain = true) →
      words.contains (asciiLower (String.ofList (trimChars s.toList))) = true →
      IsWord (trimChars s.toList) := by
    intro words hwords hmem
    rw [List.contains_iff_mem, hlower] at hmem
    exact isWord_of_map (fun _ => isPlain_of_toLower) (isWord_of_mem hmem hwords)
  simp only [isColor, Bool.and_eq_true, Bool.or_eq_true] at h
  obtain ⟨-, ((hhex | hcall) | hreference) | hword | hword⟩ := h
  · exact .inl (isWord_of_isHexColor hhex)
  · obtain ⟨body, hbody, -⟩ := (Option.any_eq_true _ _).1 hcall
    obtain ⟨name, hname, hcs⟩ := call_of_callBody? hbody
    have hplain := isWord_of_map (fun _ => isPlain_of_foldCase)
      (isWord_of_mem hname (by decide))
    exact .inr ⟨name, body, hplain, List.mem_cons_of_mem _ hname, hcs⟩
  · obtain ⟨body, hcs⟩ := call_of_isReference hreference
    have hplain : IsWord "var".toList := ⟨by decide, List.all_eq_true.1 (by decide)⟩
    exact .inr ⟨_, body, hplain, by decide, hcs⟩
  · exact .inl (hkeyword colorKeywords (by decide) hword)
  · exact .inl (hkeyword namedColors (by decide +kernel) hword)

theorem hasForm_of_isColor {s : String} (h : isColor s = true) :
    HasForm (trimChars s.toList) := by
  rcases form_of_isColor h with hword | ⟨name, body, hname, -, hcs⟩
  · exact .word hword
  · exact hcs ▸ .call body hname

theorem call_inj {name' body' : List Char} (hname : IsWord name) (hname' : IsWord name')
    (h : call name body = call name' body') : name = name' := by
  have hfront : ∀ {name body : List Char}, IsWord name →
      (call name body).takeWhile (· ≠ '(') = name := by
    intro name body hword
    have hopen : ∀ c ∈ name, decide (c ≠ '(') = true := fun c hc => by
      simpa using (isPlain_iff.1 (hword.plain c hc)).1
    rw [call, List.takeWhile_append_of_pos hopen]
    simp
  rw [← @hfront name body hname, h, hfront hname']

/-- No colour is an image, since no function gives both. -/
theorem isImageCall_of_isColor {s : String} (h : isColor s = true) :
    isImageCall (trimChars s.toList) = false := by
  refine Bool.eq_false_iff.2 fun himage => ?_
  obtain ⟨body', hbody, -⟩ := (Option.any_eq_true _ _).1 himage
  obtain ⟨name', hname', hcs'⟩ := call_of_callBody? hbody
  have hword' := isWord_of_map (fun _ => isPlain_of_foldCase)
    (isWord_of_mem hname' (by decide))
  rcases form_of_isColor h with hword | ⟨name, body, hname, hmem, hcs⟩
  · exact hword.notMem_open (by rw [hcs']; simp [call])
  · have hapart : ∀ s ∈ colorCalls, s ∉ imageFunctions := by decide
    rw [call_inj hname hword' (hcs ▸ hcs')] at hmem
    exact hapart _ hmem hname'

/-! ## One piece -/

theorem parts_of_isSingle {s : String} (h : IsSingle (trimChars s.toList)) :
    backgroundTokens (trim s) = [trim s] := by
  rw [backgroundTokens, trim, String.toList_ofList, backgroundParts_single h, List.map_singleton]

theorem isSingle_iff_of_accepted {s : String} (h : isColor s = true ∨ isLength s = true) :
    (isBalanced (trimChars s.toList) = true ∧ (backgroundTokens (trim s)).length = 1 ∧
      IsSingle (trimChars s.toList)) ↔ closesLast (trimChars s.toList) = true := by
  have hform := h.elim hasForm_of_isColor hasForm_of_isLength
  rw [← isSingle_iff hform]
  refine ⟨fun hall => hall.2.2, fun hsingle => ⟨isBalanced_single hsingle, ?_, hsingle⟩⟩
  rw [parts_of_isSingle hsingle]
  rfl

theorem isColor_of_fault? {c : Control} {v : Node} (hkind : c.kind = .color)
    (himages : c.allowImage ≠ some true) (h : c.fault? v = none) :
    ∃ s, v = .string s ∧ isColor s = true := by
  rw [Control.fault?, hkind] at h
  dsimp only at h
  unfold Control.colorFault? at h
  cases v with
  | string s =>
    refine ⟨s, rfl, ?_⟩
    dsimp only [Node.string?] at h
    split at h
    · cases h
    · split at h
      · rename_i hcolor
        simpa only [isColor, trim, String.toList_ofList,
          trimChars_eq_self_iff.2 (hasSolidEnds_trimChars s.toList)] using hcolor
      · cases h
  | _ => cases h

/-- What is taken for a colour or a length is balanced, one part and one piece just where no call
in it ends before its last character. What a control of colours without images takes is a colour,
and where no call in it ends early it is one part that is no image. -/
theorem an_accepted_value_is_one_piece_iff_its_call_ends_it (s : String) (c : Control)
    (v : Node) :
    (isColor s = true ∨ isLength s = true →
      ((isBalanced (trimChars s.toList) = true ∧ (backgroundTokens (trim s)).length = 1 ∧
        IsSingle (trimChars s.toList)) ↔ closesLast (trimChars s.toList) = true)) ∧
    (c.kind = .color → c.allowImage ≠ some true → c.fault? v = none →
      ∃ text, v = .string text ∧ isColor text = true ∧
        (closesLast (trimChars text.toList) = true →
          backgroundTokens (trim text) = [trim text] ∧
            isImageCall (trim text).toList = false)) := by
  refine ⟨isSingle_iff_of_accepted, fun hkind himages hfault => ?_⟩
  obtain ⟨text, rfl, hcolor⟩ := isColor_of_fault? hkind himages hfault
  refine ⟨text, rfl, hcolor, fun hcloses => ⟨?_, ?_⟩⟩
  · exact parts_of_isSingle ((isSingle_iff (hasForm_of_isColor hcolor)).2 hcloses)
  · rw [trim, String.toList_ofList]
    exact isImageCall_of_isColor hcolor

def fillControl : Control where
  panelId := "content"
  type := "dropdown-fill"
  path := "fill"
  kind := .color

/-- A shade with an opacity in its call, and a sum in a call within a call. -/
theorem a_shade_is_one_piece :
    (IsSingle "rgb(0 0 0 / 50%)".toList ∧ IsSingle "calc(1px + (2px * 2))".toList) ∧
      backgroundTokens "rgb(0 0 0 / 50%)" = ["rgb(0 0 0 / 50%)"] := by
  have htrim : trim "rgb(0 0 0 / 50%)" = "rgb(0 0 0 / 50%)" := by decide
  have hshade : trimChars "rgb(0 0 0 / 50%)".toList = "rgb(0 0 0 / 50%)".toList := by decide
  have hsum : trimChars "calc(1px + (2px * 2))".toList = "calc(1px + (2px * 2))".toList := by decide
  obtain ⟨hshadePiece, hstored⟩ := an_accepted_value_is_one_piece_iff_its_call_ends_it
    "rgb(0 0 0 / 50%)" fillControl (.string "rgb(0 0 0 / 50%)")
  obtain ⟨hsumPiece, -⟩ := an_accepted_value_is_one_piece_iff_its_call_ends_it
    "calc(1px + (2px * 2))" fillControl .null
  have hfirst := hshadePiece (.inl (by decide))
  have hsecond := hsumPiece (.inr (by decide))
  obtain ⟨text, htext, -, hparts⟩ := hstored rfl (by decide) (by decide)
  cases htext
  rw [hshade] at hfirst hparts
  rw [hsum] at hsecond
  rw [htrim] at hparts
  exact ⟨⟨(hfirst.2 (by decide)).2.2, (hsecond.2 (by decide)).2.2⟩, (hparts (by decide)).1⟩

/-- A call with an image behind it is taken for a colour, and stored where no image is allowed.
A call that ends too early is taken for a length, with or without a partner for the last
parenthesis. -/
theorem an_accepted_value_is_not_always_one_piece :
    isColor "rgb(0 0 0) url(a.png)" = true ∧
      fillControl.fault? (.string "rgb(0 0 0) url(a.png)") = none ∧
      backgroundTokens "rgb(0 0 0) url(a.png)" = ["rgb(0 0 0)", "url(a.png)"] ∧
      isImageCall "url(a.png)".toList = true ∧
      isLength "calc(1px))" = true ∧ isBalanced "calc(1px))".toList = false ∧
      isLength "calc(1px) (2px)" = true ∧
      backgroundTokens "calc(1px) (2px)" = ["calc(1px)", "(2px)"] := by
  decide

end WidgetSchema.Css
