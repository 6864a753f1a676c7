-- Dividers and eyebrows. Both passes look for the first closing bracket behind a name, so they
-- start anew behind each bracket, and a slash in front of the first bracket decides whether a tag
-- is written as a block. Behind an eyebrow that is left open no other is found.
import WidgetSchema.Markup.Simple
import WidgetSchema.Proofs.Markup.Entities
import WidgetSchema.Proofs.Markup.PanelOpening
import WidgetSchema.Proofs.Text.Rewritten
namespace WidgetSchema.Markup

open Text

variable {cs name word out attrs : List Char}

/-! ## Names -/

def dividerName : List Char := "<tooldrawer-divider".toList

def eyebrowName : List Char := "<tooldrawer-eyebrow".toList

theorem eyebrow_of_spells (h : Spells word eyebrowName) : ∃ c rest, word = '<' :: c :: rest ∧
    c.toLower = 't' ∧ '<' ∉ c :: rest ∧ '>' ∉ c :: rest := by
  obtain ⟨rest, rfl, hrest, hopen, hclose⟩ := h.bracketed (by decide)
  obtain ⟨c, rest, rfl, hc, -⟩ := List.map_eq_cons_iff.1 hrest
  exact ⟨c, rest, rfl, hc, hopen, hclose⟩

theorem getLast?_eyebrow (h : Spells word eyebrowName) : word.getLast? ≠ some '/' := by
  intro hlast
  have hlower : (word.map Char.toLower).getLast? = some 'w' := by
    rw [h]
    decide
  rw [List.getLast?_map, hlast] at hlower
  exact absurd hlower (by decide)

/-! ## Dividers -/

/-- A divider, and what is written for it. -/
structure IsDivider (word out : List Char) : Prop where
  split : ∃ name blanks, Spells name dividerName ∧ (∀ c ∈ blanks, isBlank c = true) ∧
    word = name ++ (blanks ++ ['/', '>'])
  written : out = dividerMarkup

theorem afterDivider?_eq_some_iff {rest : List Char} : afterDivider? cs = some rest ↔
    ∃ word, IsDivider word dividerMarkup ∧ cs = word ++ rest := by
  constructor
  · intro h
    unfold afterDivider? at h
    split at h
    · cases h
    · rename_i tail hdrop
      obtain ⟨name, rfl, hname⟩ := dropFolded_eq_some_iff.1 hdrop
      have htail := (List.takeWhile_append_dropWhile (p := isBlank) (l := tail)).symm
      rw [dropWord_eq_some_iff.1 h] at htail
      refine ⟨_, ⟨⟨name, tail.takeWhile isBlank, hname, fun c hc => List.mem_takeWhile_imp hc,
        rfl⟩, rfl⟩, ?_⟩
      rw [List.append_assoc, List.append_assoc, ← htail]
  · rintro ⟨word, ⟨⟨name, blanks, hname, hblanks, rfl⟩, -⟩, rfl⟩
    have hdrop : dropFolded Char.toLower "<tooldrawer-divider".toList
        (name ++ (blanks ++ ['/', '>']) ++ rest) = some (blanks ++ (['/', '>'] ++ rest)) :=
      dropFolded_eq_some_iff.2 ⟨name, by simp, hname⟩
    have hslash : (['/', '>'] ++ rest).dropWhile isBlank = ['/', '>'] ++ rest := by
      rw [List.cons_append, List.dropWhile_cons_of_neg (by decide)]
    simp only [afterDivider?, hdrop]
    rw [List.dropWhile_append_of_pos hblanks, hslash]
    exact dropWord_eq_some_iff.2 rfl

theorem expandDividers_of_after {rest : List Char} (h : afterDivider? cs = some rest) :
    expandDividers cs = dividerMarkup ++ expandDividers rest := by
  rw [expandDividers]
  split
  · rename_i hsome
    cases h.symm.trans hsome
    rfl
  · rename_i hnone
    cases h.symm.trans hnone

theorem expandDividers_cons {c : Char} (h : afterDivider? (c :: cs) = none) :
    expandDividers (c :: cs) = c :: expandDividers cs := by
  rw [expandDividers]
  split
  · rename_i hsome
    cases h.symm.trans hsome
  · rfl

theorem rewrites_dividers : Rewrites IsDivider expandDividers where
  nil := by
    rw [expandDividers]
    rfl
  hit := by
    rintro word out hword rest
    obtain rfl := hword.written
    exact expandDividers_of_after (afterDivider?_eq_some_iff.2 ⟨word, hword, rfl⟩)
  miss := by
    intro c cs hmiss
    refine expandDividers_cons (Option.eq_none_iff_forall_ne_some.2 fun rest hrest => ?_)
    obtain ⟨word, hword, hcs⟩ := afterDivider?_eq_some_iff.1 hrest
    exact hmiss word _ hword ⟨rest, hcs.symm⟩
  bracketed := by
    rintro word out ⟨⟨name, blanks, hname, hblanks, rfl⟩, -⟩
    obtain ⟨rest, rfl, -, -, hclose⟩ := hname.bracketed (by decide)
    refine ⟨rest ++ (blanks ++ ['/']), by simp, ?_⟩
    simp only [List.mem_append, not_or]
    exact ⟨hclose, fun hmem => absurd (hblanks '>' hmem) (by decide), by decide⟩

/-- No quote stands in a divider. -/
theorem quote_notMem_divider {quote : Char} (hquote : quote = '"' ∨ quote = '\'')
    (hword : IsDivider word out) : quote ∉ word := by
  obtain ⟨name, blanks, hname, hblanks, rfl⟩ := hword.split
  simp only [List.mem_append, not_or]
  refine ⟨fun hmem => ?_, fun hmem => ?_, ?_⟩
  · have hlower := List.mem_map_of_mem (f := Char.toLower) hmem
    rw [hname] at hlower
    rcases hquote with rfl | rfl <;> exact absurd hlower (by decide)
  · have hblank := hblanks quote hmem
    rcases hquote with rfl | rfl <;> exact absurd hblank (by decide)
  · rcases hquote with rfl | rfl <;> decide

theorem getLast?_expandDividers (cs : List Char) :
    (expandDividers (cs ++ ['>'])).getLast? = some '>' := by
  refine rewrites_dividers.getLast?_closed (fun word out hword => ?_) cs
  rw [hword.written]
  decide

/-- Dividers do not open what is closed. -/
theorem isClosed_expandDividers (h : IsClosed cs) : IsClosed (expandDividers cs) := by
  rcases h with rfl | hlast
  · exact .inl rewrites_dividers.nil
  · obtain ⟨before, rfl⟩ := List.getLast?_eq_some_iff.1 hlast
    exact .inr (getLast?_expandDividers before)

/-- No divider goes across an opening bracket. -/
theorem apart_dividers (as bs : List Char) : Apart IsDivider as ('<' :: bs) := by
  intro start _ hne word out hword hstarts
  rcases rewrites_dividers.prefix_or_ends hword hstarts with hp | ⟨-, before, rest, hbs, -, hend⟩
  · exact hp
  · obtain ⟨name, blanks, hname, hblanks, hsplit⟩ := hword.split
    obtain ⟨tail, rfl, -, hopen, -⟩ := hname.bracketed (by decide)
    obtain ⟨c, start, rfl⟩ := List.exists_cons_of_ne_nil hne
    have hfree : '<' ∉ tail ++ (blanks ++ ['/', '>']) := by
      simp only [List.mem_append, not_or]
      exact ⟨hopen, fun hmem => absurd (hblanks '<' hmem) (by decide), by decide⟩
    have hmem : '<' ∈ before := by
      rcases before with _ | ⟨b, before⟩
      · exact absurd (List.cons.inj hbs).1 (by decide)
      · rw [(List.cons.inj hbs).1]
        exact List.mem_cons_self
    have hparts : tail ++ (blanks ++ ['/', '>']) = start ++ (before ++ ['>']) :=
      (List.cons.inj (hsplit.symm.trans hend)).2
    rw [hparts] at hfree
    exact absurd (List.mem_append_right _ (List.mem_append_left _ hmem)) hfree

/-- Up to its first closing bracket a text is kept, or the bracket is that of a block. -/
theorem expandDividers_closed (hcs : '>' ∉ cs) : expandDividers (cs ++ ['>']) = cs ++ ['>'] ∨
    ∃ before after, expandDividers (cs ++ ['>']) = before ++ '>' :: after ∧ '>' ∉ before ∧
      before.getLast? = some '"' := by
  rcases rewrites_dividers.closed_cases hcs with hkept | ⟨before, word, out, hword, hsplit, hrun⟩
  · exact .inl hkept
  · have hmarkup : dividerMarkup =
        "<div aria-hidden=\"true\"".toList ++ '>' :: "</div>".toList := by decide
    obtain ⟨inside, rfl, -⟩ := rewrites_dividers.bracketed hword
    have hparts : cs ++ ['>'] = before ++ '<' :: inside ++ ['>'] := by
      rw [hsplit]
      simp
    have hbefore : '>' ∉ before := by
      rw [(List.append_inj' hparts rfl).1, List.mem_append, not_or] at hcs
      exact hcs.1
    refine .inr ⟨before ++ "<div aria-hidden=\"true\"".toList, "</div>".toList, ?_, ?_, ?_⟩
    · rw [hrun, hword.written, hmarkup, List.append_assoc]
    · rw [List.mem_append, not_or]
      exact ⟨hbefore, by decide⟩
    · rw [List.getLast?_append]
      rfl

/-- A closing bracket without a slash in front of it stays without one. -/
theorem expandDividers_first (hcs : '>' ∉ cs) (hslash : cs.getLast? ≠ some '/')
    (more : List Char) : ∃ before after,
      expandDividers (cs ++ '>' :: more) = before ++ '>' :: after ∧ '>' ∉ before ∧
        before.getLast? ≠ some '/' := by
  have hsplit : cs ++ '>' :: more = (cs ++ ['>']) ++ more := by simp
  rw [hsplit, rewrites_dividers.append_of_closed (isClosed_concat cs)]
  rcases expandDividers_closed hcs with hkept | ⟨before, after, hrun, hbefore, hlast⟩
  · exact ⟨cs, expandDividers more, by rw [hkept]; simp, hcs, hslash⟩
  · refine ⟨before, after ++ expandDividers more, by rw [hrun]; simp, hbefore, ?_⟩
    rw [hlast]
    decide

/-- An eyebrow is no divider. -/
theorem expandDividers_eyebrow (h : Spells name eyebrowName) (cs : List Char) :
    expandDividers (name ++ cs) = name ++ expandDividers cs := by
  have hmiss : ∀ word out, IsDivider word out → ¬ word <+: name ++ cs := by
    rintro word out hword ⟨rest, hrest⟩
    obtain ⟨other, blanks, hother, -, rfl⟩ := hword.split
    have hstart := congrArg (fun cs => (cs.take 13).map Char.toLower) hrest
    have hlong : ∀ {word small : List Char}, Spells word small → word.length = small.length :=
      fun hword => hword ▸ (List.length_map Char.toLower).symm
    have hother' : other.length = 19 := (hlong hother).trans (by decide)
    have hname' : name.length = 19 := (hlong h).trans (by decide)
    simp only [List.append_assoc] at hstart
    rw [List.take_append_of_le_length (by omega), List.take_append_of_le_length (by omega),
      List.map_take, List.map_take, hother, h] at hstart
    exact absurd hstart (by decide)
  obtain ⟨c, rest, rfl, -, hopen, -⟩ := eyebrow_of_spells h
  have hfirst : expandDividers ('<' :: (c :: rest ++ cs)) =
      '<' :: expandDividers (c :: rest ++ cs) := rewrites_dividers.miss hmiss
  exact hfirst.trans (by rw [rewrites_dividers.text hopen]; rfl)

/-! ## Eyebrows -/

/-- A self-closed eyebrow up to its first closing bracket, and what is written for it. -/
structure IsEyebrow (word out : List Char) : Prop where
  split : ∃ name attrs, Spells name eyebrowName ∧ '>' ∉ attrs ∧
    word = name ++ (attrs ++ ['/', '>']) ∧ out = eyebrowMarkup (Attributes.ofChars attrs)

theorem eyebrow?_eq_some_iff {rest : List Char} : eyebrow? cs = some (attrs, rest) ↔
    ∃ name, Spells name eyebrowName ∧ '>' ∉ attrs ∧ cs = name ++ (attrs ++ ['/', '>']) ++ rest := by
  constructor
  · intro h
    unfold eyebrow? at h
    split at h
    · cases h
    rename_i tail hdrop
    obtain ⟨name, rfl, hname⟩ := dropFolded_eq_some_iff.1 hdrop
    split at h
    · cases h
    rename_i inside after hcut
    obtain ⟨rfl, hinside⟩ := cutAt_singleton_eq_some_iff.1 hcut
    split at h
    · rename_i hslash
      cases h
      obtain ⟨attrs, rfl⟩ := List.getLast?_eq_some_iff.1 hslash
      rw [List.mem_append, not_or] at hinside
      refine ⟨name, hname, ?_, ?_⟩
      · rw [List.dropLast_concat]
        exact hinside.1
      · simp
    · cases h
  · rintro ⟨name, hname, hattrs, rfl⟩
    have hdrop : dropFolded Char.toLower "<tooldrawer-eyebrow".toList
        (name ++ (attrs ++ ['/', '>']) ++ rest) = some ((attrs ++ ['/']) ++ '>' :: rest) :=
      dropFolded_eq_some_iff.2 ⟨name, by simp, hname⟩
    have hcut : cutAt ['>'] ((attrs ++ ['/']) ++ '>' :: rest) = some (attrs ++ ['/'], rest) :=
      cutAt_singleton_eq_some_iff.2 ⟨rfl, by simp [hattrs]⟩
    simp only [eyebrow?, hdrop, hcut, List.getLast?_concat, if_pos, List.dropLast_concat]

theorem expandEyebrows_of_eyebrow {rest : List Char} (h : eyebrow? cs = some (attrs, rest)) :
    expandEyebrows cs = eyebrowMarkup (Attributes.ofChars attrs) ++ expandEyebrows rest := by
  rw [expandEyebrows]
  split
  · rename_i hsome
    cases h.symm.trans hsome
    rfl
  · rename_i hnone
    cases h.symm.trans hnone

theorem expandEyebrows_cons {c : Char} (h : eyebrow? (c :: cs) = none) :
    expandEyebrows (c :: cs) = c :: expandEyebrows cs := by
  rw [expandEyebrows]
  split
  · rename_i hsome
    cases h.symm.trans hsome
  · rfl

theorem rewrites_eyebrows : Rewrites IsEyebrow expandEyebrows where
  nil := by
    rw [expandEyebrows]
    rfl
  hit := by
    rintro word out ⟨name, attrs, hname, hattrs, rfl, rfl⟩ rest
    exact expandEyebrows_of_eyebrow (eyebrow?_eq_some_iff.2 ⟨name, hname, hattrs, rfl⟩)
  miss := by
    intro c cs hmiss
    refine expandEyebrows_cons (Option.eq_none_iff_forall_ne_some.2 ?_)
    rintro ⟨attrs, rest⟩ hrest
    obtain ⟨name, hname, hattrs, hcs⟩ := eyebrow?_eq_some_iff.1 hrest
    exact hmiss _ _ ⟨name, attrs, hname, hattrs, rfl, rfl⟩ ⟨rest, hcs.symm⟩
  bracketed := by
    rintro word out ⟨name, attrs, hname, hattrs, rfl, -⟩
    obtain ⟨c, rest, rfl, -, -, hclose⟩ := eyebrow_of_spells hname
    refine ⟨c :: rest ++ (attrs ++ ['/']), by simp, ?_⟩
    simp only [List.mem_append, not_or]
    exact ⟨hclose, hattrs, by decide⟩

/-- No block begins as an eyebrow does. -/
theorem name_ne_markup (h : Spells name eyebrowName) (a : Attributes) (as bs : List Char) :
    name ++ as ≠ eyebrowMarkup a ++ bs := by
  obtain ⟨c, rest, rfl, hc, -, -⟩ := eyebrow_of_spells h
  intro heq
  obtain rfl : c = 'd' := (List.cons.inj (List.cons.inj heq).2).1
  exact absurd hc (by decide)

/-- Where no slash stands in front of the first closing bracket, no eyebrow ends at it. -/
theorem prefix_of_eyebrow {start before after : List Char} (hbefore : '>' ∉ before)
    (hne : before ≠ []) (hslash : before.getLast? ≠ some '/') (hword : IsEyebrow word out)
    (hstarts : word <+: start ++ (before ++ '>' :: after)) : word <+: start := by
  rcases rewrites_eyebrows.prefix_or_ends hword hstarts with
    hp | ⟨-, before', rest, hsplit, hbefore', hend⟩
  · exact hp
  · obtain ⟨rfl, -⟩ := append_cons_inj_of_first hbefore hbefore' hsplit
    obtain ⟨name, attrs, -, -, hparts, -⟩ := hword.split
    have hcut : start ++ before = name ++ attrs ++ ['/'] := by
      refine (List.append_inj' (?_ : _ ++ ['>'] = _ ++ ['>']) rfl).1
      rw [List.append_assoc, ← hend, hparts]
      simp
    have hlast := congrArg List.getLast? hcut
    rw [List.getLast?_append_of_ne_nil _ hne, List.getLast?_concat] at hlast
    exact absurd hlast hslash

/-- Then an eyebrow is kept, and so is what is left open in front of it. -/
theorem expandEyebrows_unclosed {as before : List Char} (h : Spells name eyebrowName)
    (hbefore : '>' ∉ before) (hslash : before.getLast? ≠ some '/') (has : '>' ∉ as)
    (after : List Char) : ∃ rest,
      expandEyebrows (as ++ (name ++ (before ++ '>' :: after))) = as ++ (name ++ rest) := by
  have hlast : (name ++ before).getLast? ≠ some '/' := by
    rcases List.eq_nil_or_concat before with rfl | ⟨before, c, rfl⟩
    · rw [List.append_nil]
      exact getLast?_eyebrow h
    · rwa [List.getLast?_append_of_ne_nil _ (by simp)]
  obtain ⟨c, tail, rfl, -, hopen, hclose⟩ := eyebrow_of_spells h
  have hfree : '>' ∉ '<' :: c :: tail ++ before := by
    rw [List.mem_append, not_or, List.mem_cons, not_or]
    exact ⟨⟨by decide, hclose⟩, hbefore⟩
  have hnone : ∀ start : List Char, '>' ∉ start → ∀ word out, IsEyebrow word out →
      ¬ word <+: start ++ ('<' :: c :: tail ++ (before ++ '>' :: after)) := by
    intro start hstart word out hword hstarts
    rw [← List.append_assoc ('<' :: c :: tail)] at hstarts
    have hfront := prefix_of_eyebrow hfree (by simp) hlast hword hstarts
    obtain ⟨inside, rfl, -⟩ := rewrites_eyebrows.bracketed hword
    exact hstart (hfront.subset (by simp))
  induction as with
  | nil =>
    have hmiss : expandEyebrows ('<' :: (c :: tail ++ (before ++ '>' :: after))) =
        '<' :: expandEyebrows (c :: tail ++ (before ++ '>' :: after)) :=
      rewrites_eyebrows.miss (hnone [] List.not_mem_nil)
    refine ⟨expandEyebrows (before ++ '>' :: after), ?_⟩
    exact hmiss.trans (by rw [rewrites_eyebrows.text hopen]; rfl)
  | cons a as ih =>
    have hmiss : expandEyebrows (a :: (as ++ ('<' :: c :: tail ++ (before ++ '>' :: after)))) =
        a :: expandEyebrows (as ++ ('<' :: c :: tail ++ (before ++ '>' :: after))) :=
      rewrites_eyebrows.miss (hnone (a :: as) has)
    obtain ⟨rest, hrest⟩ := ih fun hmem => has (List.mem_cons_of_mem a hmem)
    exact ⟨rest, hmiss.trans (by rw [hrest]; rfl)⟩

/-! ## Eyebrows that are left open -/

/-- A text in which an eyebrow starts that no closing bracket stands behind. -/
def LeavesEyebrow (cs : List Char) : Prop :=
  ∃ start, start <:+ cs ∧ '>' ∉ start ∧ (dropFolded Char.toLower eyebrowName start).isSome

/-- What is open behind a closed text is open in what follows it. -/
theorem leavesEyebrow_append_iff {closed tail : List Char} (hclosed : IsClosed closed)
    (htail : '>' ∉ tail) : LeavesEyebrow (closed ++ tail) ↔
      ∃ start, start <:+ tail ∧ (dropFolded Char.toLower eyebrowName start).isSome := by
  constructor
  · rintro ⟨start, hstart, hfree, hname⟩
    refine ⟨start, ?_, hname⟩
    rcases List.suffix_or_suffix_of_suffix hstart (List.suffix_append closed tail) with hp | hp
    · exact hp
    · obtain ⟨more, rfl⟩ := hp
      obtain ⟨before, hbefore⟩ := hstart
      have hmore : closed = before ++ more := by
        rw [← List.append_assoc] at hbefore
        exact (List.append_cancel_right hbefore).symm
      rcases List.eq_nil_or_concat more with rfl | ⟨more, c, rfl⟩
      · exact List.suffix_rfl
      · have hlast : c = '>' := by
          rcases hclosed with rfl | hlast
          · simp at hmore
          · rw [hmore] at hlast
            simpa using hlast
        rw [hlast] at hfree
        simp at hfree
  · rintro ⟨start, hstart, hname⟩
    exact ⟨start, hstart.trans (List.suffix_append _ _), fun hmem => htail (hstart.subset hmem),
      hname⟩

/-- An eyebrow that goes on behind an opening bracket has its name in front of it. -/
theorem notPrefix_of_dropFolded {c : Char} {as : List Char}
    (h : dropFolded Char.toLower eyebrowName (c :: as) = none) (hword : IsEyebrow word out)
    (bs : List Char) : ¬ word <+: c :: as ++ '<' :: bs := by
  rintro ⟨rest, hrest⟩
  obtain ⟨name, attrs, hname, -, rfl, -⟩ := hword.split
  have hdrop : dropFolded Char.toLower eyebrowName (c :: as ++ '<' :: bs) =
      some (attrs ++ ['/', '>'] ++ rest) :=
    dropFolded_eq_some_iff.2 ⟨name, by rw [← hrest, List.append_assoc], hname⟩
  rw [dropFolded_cons_across (by decide), h] at hdrop
  cases hdrop

theorem apart_eyebrows {as : List Char}
    (h : ∀ start, start <:+ as → dropFolded Char.toLower eyebrowName start = none)
    (bs : List Char) : Apart IsEyebrow as ('<' :: bs) := by
  intro start hstart hne word out hword hstarts
  obtain ⟨c, start, rfl⟩ := List.exists_cons_of_ne_nil hne
  exact absurd hstarts (notPrefix_of_dropFolded (h _ hstart) hword bs)

/-- Behind an eyebrow that is left open no other is written as a block of its own. -/
theorem expandEyebrows_open {as start before : List Char} (h : Spells name eyebrowName)
    (hbefore : '>' ∉ before) (has : '>' ∉ as) (hstart : start <:+ as)
    (hopen : (dropFolded Char.toLower eyebrowName start).isSome) (a : Attributes)
    (after more : List Char) :
    expandEyebrows (as ++ (name ++ (before ++ '>' :: after))) ≠
      as ++ (eyebrowMarkup a ++ more) := by
  by_cases hslash : before.getLast? = some '/'
  · obtain ⟨inner, rfl⟩ := List.getLast?_eq_some_iff.1 hslash
    induction as with
    | nil =>
      rw [List.suffix_nil.1 hstart] at hopen
      exact absurd hopen (by decide)
    | cons c as ih =>
      rcases hdrop : dropFolded Char.toLower eyebrowName (c :: as) with _ | tail
      · have hlater : start <:+ as := by
          rcases List.suffix_cons_iff.1 hstart with rfl | hlater
          · rw [hdrop] at hopen
            cases hopen
          · exact hlater
        obtain ⟨d, rest, rfl, -⟩ := eyebrow_of_spells h
        have hmiss := rewrites_eyebrows.miss fun word out hword =>
          notPrefix_of_dropFolded hdrop hword (d :: rest ++ (inner ++ ['/'] ++ '>' :: after))
        intro heq
        refine ih (fun hmem => has (List.mem_cons_of_mem c hmem)) hlater ?_
        exact (List.cons.inj (hmiss.symm.trans heq)).2
      · obtain ⟨name', hsplit, hname'⟩ := dropFolded_eq_some_iff.1 hdrop
        have hfree : '>' ∉ tail ++ (name ++ inner) := by
          obtain ⟨d, rest, rfl, -, -, hclose⟩ := eyebrow_of_spells h
          rw [hsplit, List.mem_append, not_or] at has
          rw [List.mem_append, not_or] at hbefore
          rw [List.mem_append, List.mem_append, not_or, not_or, List.mem_cons, not_or]
          exact ⟨has.2, ⟨by decide, hclose⟩, hbefore.1⟩
        have hhit := rewrites_eyebrows.hit ⟨name', _, hname', hfree, rfl, rfl⟩ after
        have hsame : name' ++ (tail ++ (name ++ inner) ++ ['/', '>']) ++ after =
            c :: as ++ (name ++ (inner ++ ['/'] ++ '>' :: after)) := by
          rw [hsplit]
          simp
        rw [← hsame, hhit, hsplit, List.append_assoc]
        exact (name_ne_markup hname' _ _ _).symm
  · obtain ⟨rest, hrest⟩ := expandEyebrows_unclosed h hbefore hslash has after
    intro heq
    rw [hrest] at heq
    exact name_ne_markup h a rest more (List.append_cancel_left heq)

end WidgetSchema.Markup
