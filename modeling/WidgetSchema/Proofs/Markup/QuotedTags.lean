-- Tags with quotes in simple passes. Fields and clusters end at the first closing bracket outside
-- of quotes, eyebrows and inputs at the first bracket of all. So an eyebrow is written as the block
-- of its text, and an input is bound at its end, just where no value in the tag holds a bracket.
import WidgetSchema.Proofs.Markup.SimpleTags
import WidgetSchema.Proofs.Markup.Values
namespace WidgetSchema.Markup

open Text

variable {name word out attrs : List Char}

/-! ## The text of an eyebrow -/

/-- The text that is written for an eyebrow. -/
def eyebrowText (attrs : List Char) : List Char :=
  (((Attributes.ofChars attrs).get? "text").getD "").toList

theorem eyebrowText_subset (attrs : List Char) : eyebrowText attrs ⊆ attrs := by
  unfold eyebrowText
  rcases htext : (Attributes.ofChars attrs).get? "text" with _ | value
  · exact List.nil_subset _
  · obtain ⟨quote, before, after, -, -, hattrs⟩ := Attributes.standsQuoted_of_get? htext
    intro c hc
    rw [hattrs]
    simp only [List.mem_append, List.mem_cons]
    exact .inr (.inr (.inl hc))

/-- A text that is not empty stands between quotes. -/
theorem standsQuoted_eyebrowText (h : eyebrowText attrs ≠ []) :
    StandsQuoted (eyebrowText attrs) attrs := by
  unfold eyebrowText at h ⊢
  rcases htext : (Attributes.ofChars attrs).get? "text" with _ | value
  · rw [htext] at h
    exact absurd rfl h
  · exact Attributes.standsQuoted_of_get? htext

/-- A quote stays when no slash stands in front of the first closing bracket behind it. -/
theorem quote_mem_expandSimple {quote : Char} (hquote : quote = '"' ∨ quote = '\'')
    {before inner : List Char} (hinner : '>' ∉ inner) (hslash : inner.getLast? ≠ some '/')
    (after : List Char) : quote ∈ expandSimple (before ++ quote :: (inner ++ '>' :: after)) := by
  have hplain : quote ≠ '<' ∧ quote ≠ '>' ∧ quote ≠ '/' := by
    rcases hquote with rfl | rfl <;> decide
  have hdivider : Apart IsDivider before (quote :: (inner ++ '>' :: after)) :=
    fun _ _ _ _ _ hword hstarts =>
      prefix_of_prefix_append_cons (quote_notMem_divider hquote hword) hstarts
  obtain ⟨first, rest, hfirst, hfree, hend⟩ := expandDividers_first hinner hslash after
  have hrun : expandDividers (before ++ quote :: (inner ++ '>' :: after)) =
      expandDividers before ++ (quote :: first ++ '>' :: rest) := by
    rw [rewrites_dividers.append hdivider, rewrites_dividers.cons_of_ne hplain.1, hfirst]
    rfl
  have heyebrow : Apart IsEyebrow (expandDividers before) (quote :: first ++ '>' :: rest) := by
    intro start _ _ word out hword hstarts
    refine prefix_of_eyebrow ?_ (List.cons_ne_nil _ _) ?_ hword hstarts
    · rw [List.mem_cons, not_or]
      exact ⟨Ne.symm hplain.2.1, hfree⟩
    · rw [List.getLast?_cons]
      rcases hlast : first.getLast? with _ | c
      · simpa using hplain.2.2
      · rwa [hlast] at hend
  have hkept : expandEyebrows (quote :: first ++ '>' :: rest) =
      quote :: expandEyebrows (first ++ '>' :: rest) := rewrites_eyebrows.cons_of_ne hplain.1 _
  rw [expandSimple, hrun, rewrites_eyebrows.append heyebrow, hkept]
  simp

/-- What the block of an eyebrow ends with, up to the closing bracket. -/
def blockEnd : List Char := "</div".toList

theorem eyebrowMarkup_eq (attrs : List Char) : eyebrowMarkup (Attributes.ofChars attrs) =
    "<div class=\"overline\" style=\"padding-inline: var(--control-padding-inline);\">".toList ++
      (eyebrowText attrs ++ blockEnd ++ ['>']) := by
  have hclose : "</div>".toList = blockEnd ++ ['>'] := by decide
  unfold eyebrowMarkup eyebrowText
  rw [hclose]
  simp only [List.append_assoc]

theorem bracket_notMem_block {as : List Char} (has : '>' ∉ as) : '>' ∉ as ++ blockEnd := by
  rw [List.mem_append, not_or]
  exact ⟨has, by decide⟩

theorem getLast?_blockEnd (as : List Char) : (as ++ blockEnd).getLast? = some 'v' := by
  have hend : blockEnd.getLast? = some 'v' := by decide
  rw [List.getLast?_append, hend, Option.some_or]

theorem expandSimple_closed (cs : List Char) :
    (expandSimple (cs ++ ['>'])).getLast? = some '>' := by
  have heyebrow : ∀ word out, IsEyebrow word out → out.getLast? = some '>' := by
    rintro word out ⟨name, attrs, -, -, -, rfl⟩
    rw [eyebrowMarkup_eq, ← List.append_assoc, List.getLast?_concat]
  obtain ⟨before, hbefore⟩ := List.getLast?_eq_some_iff.1 (getLast?_expandDividers cs)
  rw [expandSimple, hbefore]
  exact rewrites_eyebrows.getLast?_closed heyebrow before

/-- What stands behind the end of a block, in a text that ends as a block does, is of this text. -/
theorem exists_of_blocks_eq {as bs more : List Char} (has : '>' ∉ as) (hmore : more ≠ [])
    (h : as ++ blockEnd ++ '>' :: more = bs ++ blockEnd ++ ['>']) :
    ∃ later, bs = as ++ blockEnd ++ '>' :: later ∧ more = later ++ blockEnd ++ ['>'] := by
  have hfront := bracket_notMem_block has
  by_cases hbs : '>' ∈ bs
  · obtain ⟨first, later, rfl, hfirst⟩ := List.eq_append_cons_of_mem hbs
    obtain ⟨rfl, rfl⟩ := append_cons_inj_of_first hfront hfirst
      (h.trans (by simp : _ = first ++ '>' :: (later ++ blockEnd ++ ['>'])))
    exact ⟨later, rfl, rfl⟩
  · exact absurd (append_cons_inj_of_first hfront (bracket_notMem_block hbs) h).2 hmore

/-- What a bracket without a slash in front of it stands in is behind the one with a slash. -/
theorem exists_behind {inner rest before first after : List Char} {quote : Char}
    (hinner : '>' ∉ inner) (hquote : quote ≠ '>') (hfirst : '>' ∉ first)
    (hlast : first.getLast? = some 'v')
    (h : inner ++ '/' :: '>' :: rest = before ++ quote :: (first ++ '>' :: after)) :
    ∃ between, rest = between ++ quote :: (first ++ '>' :: after) := by
  have hcut : '>' ∉ inner ++ ['/'] := by
    rw [List.mem_append, not_or]
    exact ⟨hinner, by decide⟩
  have hsplit : inner ++ '/' :: '>' :: rest = (inner ++ ['/']) ++ '>' :: rest := by simp
  by_cases hbefore : '>' ∈ before
  · obtain ⟨start, between, rfl, hstart⟩ := List.eq_append_cons_of_mem hbefore
    rw [hsplit, List.append_assoc start] at h
    exact ⟨between, (append_cons_inj_of_first hcut hstart h).2⟩
  · have hopen : '>' ∉ before ++ quote :: first := by
      rw [List.mem_append, List.mem_cons, not_or, not_or]
      exact ⟨hbefore, Ne.symm hquote, hfirst⟩
    have hjoin : before ++ quote :: (first ++ '>' :: after) =
        (before ++ quote :: first) ++ '>' :: after := by simp
    rw [hsplit, hjoin] at h
    have hends := congrArg List.getLast? (append_cons_inj_of_first hcut hopen h).1
    rw [List.getLast?_concat, List.getLast?_append_of_ne_nil _ (List.cons_ne_nil _ _),
      List.getLast?_cons, hlast, Option.getD_some] at hends
    exact absurd hends (by decide)

/-- A value that is cut at a closing bracket gives another block. -/
theorem cut_ne_markup {inner : List Char} (hinner : '>' ∉ inner) (rest : List Char) :
    eyebrowMarkup (Attributes.ofChars inner) ++ expandSimple (rest ++ ['/', '>']) ≠
      eyebrowMarkup (Attributes.ofChars (inner ++ '/' :: '>' :: rest)) := by
  intro heq
  rw [eyebrowMarkup_eq, eyebrowMarkup_eq, List.append_assoc] at heq
  replace heq := List.append_cancel_left heq
  rw [List.append_assoc _ ['>'], List.singleton_append] at heq
  have hfree : '>' ∉ eyebrowText inner := fun hmem => hinner (eyebrowText_subset _ hmem)
  have hbehind : expandSimple (rest ++ ['/', '>']) ≠ [] := by
    have hlast := expandSimple_closed (rest ++ ['/'])
    rw [List.append_assoc, List.singleton_append] at hlast
    intro hnil
    rw [hnil] at hlast
    cases hlast
  -- The value of the tag begins with the whole first block, so it stands behind the cut, and its
  -- opening quote is written as it is; but behind the first block there is no such quote.
  obtain ⟨later, htext, hlater⟩ := exists_of_blocks_eq hfree hbehind heq
  obtain ⟨quote, before, after, hquote, hvalue, hattrs⟩ :=
    standsQuoted_eyebrowText (by rw [htext]; simp)
  have hplain : quote ≠ '>' ∧ quote ∉ blockEnd := by
    rcases hquote with rfl | rfl <;> decide
  rw [htext] at hvalue hattrs
  have hfirst := bracket_notMem_block hfree
  rw [List.append_assoc (eyebrowText inner ++ blockEnd), List.cons_append] at hattrs
  obtain ⟨between, rfl⟩ :=
    exists_behind hinner hplain.1 hfirst (getLast?_blockEnd _) hattrs
  have hkept := @quote_mem_expandSimple quote hquote between _ hfirst
    (by rw [getLast?_blockEnd]; decide) (later ++ quote :: after ++ ['/', '>'])
  have hsame : between ++ quote :: (eyebrowText inner ++ blockEnd ++
      '>' :: (later ++ quote :: after)) ++ ['/', '>'] = between ++ quote :: (eyebrowText inner ++
      blockEnd ++ '>' :: (later ++ quote :: after ++ ['/', '>'])) := by simp
  rw [← hsame, hlater] at hkept
  simp only [List.mem_append, List.mem_cons, not_or] at hvalue hkept
  rcases hkept with (hkept | hkept) | hkept | hkept
  · exact hvalue.2.2 hkept
  · exact hplain.2 hkept
  · exact hplain.1 hkept
  · cases hkept

/-! ## Eyebrows as blocks -/

theorem expandEyebrows_ne_markup {before : List Char} (h : Spells name eyebrowName)
    (hbefore : '>' ∉ before) (hslash : before.getLast? ≠ some '/') (after : List Char)
    (a : Attributes) : expandEyebrows (name ++ (before ++ '>' :: after)) ≠ eyebrowMarkup a := by
  obtain ⟨rest, hrest⟩ := expandEyebrows_unclosed h hbefore hslash List.not_mem_nil after
  rw [List.nil_append, List.nil_append] at hrest
  rw [hrest, ← List.append_nil (eyebrowMarkup a)]
  exact name_ne_markup h a rest []

/-- An eyebrow with a closing bracket in it is not written as the block of its text. -/
theorem cut_eyebrow_ne_markup (h : Spells name eyebrowName) (hattrs : '>' ∈ attrs) :
    expandEyebrows (name ++ expandDividers (attrs ++ ['/', '>'])) ≠
      eyebrowMarkup (Attributes.ofChars attrs) := by
  obtain ⟨first, rest, rfl, hfirst⟩ := List.eq_append_cons_of_mem hattrs
  rw [List.append_assoc, List.cons_append]
  by_cases hslash : first.getLast? = some '/'
  · obtain ⟨inner, rfl⟩ := List.getLast?_eq_some_iff.1 hslash
    have hsplit : inner ++ ['/'] ++ '>' :: (rest ++ ['/', '>']) =
        (inner ++ ['/'] ++ ['>']) ++ (rest ++ ['/', '>']) := by simp
    rw [hsplit, rewrites_dividers.append_of_closed (isClosed_concat _)]
    rcases expandDividers_closed hfirst with hkept | ⟨before, after, hrun, hbefore, hlast⟩
    · have hinner : '>' ∉ inner := fun hmem => hfirst (List.mem_append_left _ hmem)
      have hhit := rewrites_eyebrows.hit ⟨name, inner, h, hinner, rfl, rfl⟩
        (expandDividers (rest ++ ['/', '>']))
      have hjoin : name ++ (inner ++ ['/', '>']) = name ++ (inner ++ ['/'] ++ ['>']) := by simp
      have hwhole : inner ++ ['/'] ++ '>' :: rest = inner ++ '/' :: '>' :: rest := by simp
      rw [hkept, ← List.append_assoc, ← hjoin, hhit, hwhole]
      exact cut_ne_markup hinner rest
    · rw [hrun, List.append_assoc, List.cons_append]
      exact expandEyebrows_ne_markup h hbefore (by rw [hlast]; decide) _ _
  · obtain ⟨before, after, hrun, hbefore, hlast⟩ :=
      expandDividers_first hfirst hslash (rest ++ ['/', '>'])
    rw [hrun]
    exact expandEyebrows_ne_markup h hbefore hlast _ _

/-- An eyebrow is written as the block of its text just where no closing bracket stands in it and
no divider is found in it. -/
theorem expandSimple_eyebrow_iff (h : Spells name eyebrowName) (attrs : List Char) :
    expandSimple (name ++ (attrs ++ ['/', '>'])) = eyebrowMarkup (Attributes.ofChars attrs) ↔
      '>' ∉ attrs ∧ expandDividers (name ++ (attrs ++ ['/', '>'])) =
        name ++ (attrs ++ ['/', '>']) := by
  constructor
  · intro heq
    rw [expandSimple, expandDividers_eyebrow h] at heq
    rw [expandDividers_eyebrow h]
    have hattrs : '>' ∉ attrs := fun hmem => cut_eyebrow_ne_markup h hmem heq
    have hslash : '>' ∉ attrs ++ ['/'] := by
      rw [List.mem_append, not_or]
      exact ⟨hattrs, by decide⟩
    have hsplit : attrs ++ ['/', '>'] = attrs ++ ['/'] ++ ['>'] := by simp
    rw [hsplit] at heq ⊢
    rcases expandDividers_closed hslash with hkept | ⟨before, after, hrun, hbefore, hlast⟩
    · exact ⟨hattrs, by rw [hkept]⟩
    · rw [hrun] at heq
      exact absurd heq (expandEyebrows_ne_markup h hbefore (by rw [hlast]; decide) _ _)
  · rintro ⟨hattrs, hdividers⟩
    have hhit := rewrites_eyebrows.hit ⟨name, attrs, h, hattrs, rfl, rfl⟩ []
    rw [List.append_nil, rewrites_eyebrows.nil, List.append_nil] at hhit
    rw [expandSimple, hdividers, hhit]

section Around

variable {closed tail : List Char}

/-- What is left open at the end of a text is kept. -/
theorem expandSimple_append_tail (hclosed : IsClosed closed) (htail : '>' ∉ tail) :
    expandSimple (closed ++ tail) = expandEyebrows (expandDividers closed) ++ tail := by
  rw [expandSimple, rewrites_dividers.append_of_closed hclosed, rewrites_dividers.unclosed htail,
    rewrites_eyebrows.append_of_closed (isClosed_expandDividers hclosed),
    rewrites_eyebrows.unclosed htail]

/-- The dividers of a tag, of the text behind it and of the text in front of it are apart. -/
theorem expandDividers_around {tag : List Char} (hclosed : IsClosed closed) (htail : '>' ∉ tail)
    (htag : IsClosed ('<' :: tag)) (after : List Char) :
    expandDividers (closed ++ tail ++ '<' :: tag ++ after) = expandDividers closed ++
      (tail ++ (expandDividers ('<' :: tag) ++ expandDividers after)) := by
  rw [List.append_assoc, List.append_assoc, rewrites_dividers.append_of_closed hclosed,
    List.cons_append, rewrites_dividers.append (apart_dividers tail _),
    rewrites_dividers.unclosed htail, ← List.cons_append,
    rewrites_dividers.append_of_closed htag]

/-- Within a text an eyebrow is written as the block of its text just where it is on its own, and
where no eyebrow is left open in front of it. -/
theorem expandSimple_around_iff (h : Spells name eyebrowName) (before after : List Char)
    (a : Attributes) :
    expandSimple (before ++ (name ++ (attrs ++ ['/', '>'])) ++ after) =
        expandSimple before ++ eyebrowMarkup a ++ expandSimple after ↔
      expandSimple (name ++ (attrs ++ ['/', '>'])) = eyebrowMarkup a ∧
        ¬ LeavesEyebrow before := by
  obtain ⟨closed, tail, rfl, hclosed, htail⟩ := exists_closed_append before
  have hends : IsClosed (name ++ (attrs ++ ['/', '>'])) := by
    rw [← List.append_assoc]
    exact .inr (List.getLast?_append_of_ne_nil _ (List.cons_ne_nil _ _))
  obtain ⟨tag, htag⟩ : ∃ tag, name ++ (attrs ++ ['/', '>']) = '<' :: tag := by
    obtain ⟨c, rest, rfl, -⟩ := eyebrow_of_spells h
    exact ⟨_, rfl⟩
  have hdividers := expandDividers_around hclosed htail (htag ▸ hends) after
  rw [← htag, expandDividers_eyebrow h] at hdividers
  rw [expandSimple_append_tail hclosed htail, expandSimple, hdividers,
    rewrites_eyebrows.append_of_closed (isClosed_expandDividers hclosed),
    List.append_assoc (expandEyebrows _ ++ tail), List.append_assoc (expandEyebrows _),
    List.append_cancel_left_eq]
  by_cases hopen : LeavesEyebrow (closed ++ tail)
  · refine iff_of_false ?_ fun hright => hright.2 hopen
    obtain ⟨start, hstart, hname⟩ := (leavesEyebrow_append_iff hclosed htail).1 hopen
    have hlast := getLast?_expandDividers (attrs ++ ['/'])
    rw [List.append_assoc, List.singleton_append] at hlast
    obtain ⟨inside, later, hsplit, hinside⟩ :=
      List.eq_append_cons_of_mem (List.mem_of_getLast? hlast)
    have hjoin : name ++ (inside ++ '>' :: later) ++ expandDividers after =
        name ++ (inside ++ '>' :: (later ++ expandDividers after)) := by simp
    rw [hsplit, hjoin]
    exact expandEyebrows_open h hinside htail hstart hname a _ _
  · have hnone : ∀ start, start <:+ tail → dropFolded Char.toLower eyebrowName start = none := by
      intro start hstart
      rw [leavesEyebrow_append_iff hclosed htail] at hopen
      exact Option.not_isSome_iff_eq_none.1 fun hname => hopen ⟨start, hstart, hname⟩
    have hblock := isClosed_expandDividers hends
    rw [expandDividers_eyebrow h] at hblock
    have hapart : Apart IsEyebrow tail
        (name ++ expandDividers (attrs ++ ['/', '>']) ++ expandDividers after) := by
      obtain ⟨c, rest, rfl, -⟩ := eyebrow_of_spells h
      exact apart_eyebrows hnone _
    rw [rewrites_eyebrows.append hapart, rewrites_eyebrows.unclosed htail,
      rewrites_eyebrows.append_of_closed hblock, List.append_cancel_left_eq,
      and_iff_left hopen, expandSimple, expandSimple, expandDividers_eyebrow h,
      List.append_cancel_right_eq]

end Around

/-! ## Inputs -/

/-- The first input of a text, when its end is looked for outside of quotes: what stands in front of
it, its text up to the end, and what follows. -/
def firstInput? (cs : List Char) : Option (List Char × List Char × List Char) := do
  let (before, rest) ← cutAt "<input".toList cs
  let (inside, after) ← cutTag .outside rest
  return (before, inside, after)

/-- An input with a text around it, bound at its end. -/
def boundInput (path before inside after : List Char) : List Char :=
  let (attrs, slash) := splitSlash inside
  before ++ "<input".toList ++ attrs ++ ' ' :: bindMark ++ path ++ '"' :: slash ++ '>' :: after

theorem bindPath_of_unmarked {rendered : List Char} (hslot : occurs slotMark rendered = false)
    (hbind : occurs bindMark rendered = false) (path : List Char) :
    bindPath rendered path = bindInput path rendered := by
  have hcut : cutAt slotMark rendered = none := by
    rwa [occurs, Option.isSome_eq_false_iff, Option.isNone_iff_eq_none] at hslot
  have hslots : replaceChars slotMark bindMark rendered = rendered :=
    replaceChars_of_cutAt_eq_none hcut
  unfold bindPath
  dsimp only
  rw [hslots, hbind, if_neg Bool.false_ne_true]

theorem bindInput_of_cutAt {cs before rest inside after : List Char} (path : List Char)
    (hinput : cutAt "<input".toList cs = some (before, rest))
    (hend : cutAt ['>'] rest = some (inside, after)) :
    bindInput path cs = boundInput path before inside after := by
  unfold bindInput
  rw [hinput]
  dsimp only
  rw [hend]
  rfl

/-- What comes in front of a closing bracket is not cut by the slash before a later one. -/
theorem splitSlash_behind (first more : List Char) :
    ∃ rest, (splitSlash (first ++ '>' :: more)).1 = first ++ '>' :: rest := by
  unfold splitSlash
  split
  · rename_i hslash
    rcases List.eq_nil_or_concat more with rfl | ⟨rest, c, rfl⟩
    · rw [List.getLast?_concat] at hslash
      exact absurd hslash (by decide)
    · refine ⟨rest, ?_⟩
      rw [List.concat_eq_append, ← List.cons_append, ← List.append_assoc, List.dropLast_concat]
  · exact ⟨more, rfl⟩

/-- An input that is bound at an earlier bracket is another text. -/
theorem boundInput_ne (path before first more later after : List Char) :
    boundInput path before first later ≠ boundInput path before (first ++ '>' :: more) after := by
  obtain ⟨rest, hrest⟩ := splitSlash_behind first more
  intro heq
  unfold boundInput at heq
  simp only [List.append_assoc, List.append_cancel_left_eq, hrest, List.cons_append] at heq
  unfold splitSlash at heq
  split at heq
  · rename_i hslash
    obtain ⟨inner, rfl⟩ := List.getLast?_eq_some_iff.1 hslash
    rw [List.dropLast_concat, List.append_assoc] at heq
    exact absurd (List.cons.inj (List.append_cancel_left heq)).1 (by decide)
  · exact absurd (List.cons.inj (List.append_cancel_left heq)).1 (by decide)

theorem bindPath_eq_boundInput_iff {rendered before inside after : List Char}
    (hslot : occurs slotMark rendered = false) (hbind : occurs bindMark rendered = false)
    (h : firstInput? rendered = some (before, inside, after)) (path : List Char) :
    bindPath rendered path = boundInput path before inside after ↔ '>' ∉ inside := by
  obtain ⟨⟨before', rest⟩, hinput, h⟩ := Option.bind_eq_some_iff.1 h
  obtain ⟨⟨inside', after'⟩, htag, h⟩ := Option.bind_eq_some_iff.1 h
  cases h
  have hrest := append_of_cutTag htag
  rw [bindPath_of_unmarked hslot hbind]
  constructor
  · intro heq hmem
    obtain ⟨first, more, rfl, hfirst⟩ := List.eq_append_cons_of_mem hmem
    have hend : cutAt ['>'] rest = some (first, more ++ '>' :: after) :=
      cutAt_singleton_eq_some_iff.2 ⟨by rw [hrest]; simp, hfirst⟩
    rw [bindInput_of_cutAt path hinput hend] at heq
    exact boundInput_ne _ _ _ _ _ _ heq
  · intro hfree
    exact bindInput_of_cutAt path hinput (cutAt_singleton_eq_some_iff.2 ⟨hrest, hfree⟩)

/-! ## Tags with quotes -/

/-- The attributes of a self-closed eyebrow at the start of a text, when its end is looked for
outside of quotes, and what follows it. -/
def quotedEyebrow? (cs : List Char) : Option (List Char × List Char) := do
  let rest ← dropFolded Char.toLower eyebrowName cs
  let (inside, after) ← cutTag .outside rest
  if inside.getLast? = some '/' then some (inside.dropLast, after) else none

theorem append_of_quotedEyebrow? {tag : List Char} (h : quotedEyebrow? tag = some (attrs, [])) :
    ∃ name, Spells name eyebrowName ∧ tag = name ++ (attrs ++ ['/', '>']) := by
  obtain ⟨rest, hdrop, h⟩ := Option.bind_eq_some_iff.1 h
  obtain ⟨⟨inside, after⟩, htag, h⟩ := Option.bind_eq_some_iff.1 h
  dsimp only at h
  split at h
  · rename_i hslash
    cases h
    obtain ⟨inner, rfl⟩ := List.getLast?_eq_some_iff.1 hslash
    obtain ⟨name, rfl, hname⟩ := dropFolded_eq_some_iff.1 hdrop
    refine ⟨name, hname, ?_⟩
    rw [append_of_cutTag htag, List.dropLast_concat, List.append_assoc]
    rfl
  · cases h

/-- The first input of a text without marks is bound at the end that its quotes give it just where
no closing bracket stands in it. A self-closed eyebrow that ends where its quotes say is written as
the block of its text just where no closing bracket stands in it, it holds no divider and no
eyebrow is left open in front of it. -/
theorem a_tag_ends_with_its_quotes_iff_no_bracket_stands_in_it
    (rendered path before inside after tag attrs : List Char) :
    (occurs slotMark rendered = false → occurs bindMark rendered = false →
      firstInput? rendered = some (before, inside, after) →
      (bindPath rendered path = boundInput path before inside after ↔ '>' ∉ inside)) ∧
    (quotedEyebrow? tag = some (attrs, []) →
      (expandSimple (before ++ tag ++ after) =
          expandSimple before ++ eyebrowMarkup (Attributes.ofChars attrs) ++ expandSimple after ↔
        ('>' ∉ attrs ∧ expandDividers tag = tag) ∧ ¬ LeavesEyebrow before)) := by
  constructor
  · intro hslot hbind hinput
    exact bindPath_eq_boundInput_iff hslot hbind hinput path
  · intro htag
    obtain ⟨name, hname, rfl⟩ := append_of_quotedEyebrow? htag
    rw [expandSimple_around_iff hname, expandSimple_eyebrow_iff hname]

/-- An input and an eyebrow whose values hold no bracket. -/
theorem a_plain_value_is_kept_whole :
    bindPath "<input type='text'/>".toList "title".toList =
        "<input type='text' data-bob-path=\"title\"/>".toList ∧
      expandSimple "<tooldrawer-eyebrow text='Layout' />".toList =
        expandSimple [] ++ eyebrowMarkup ⟨[("text", "Layout")]⟩ ++ expandSimple [] := by
  obtain ⟨hinputs, heyebrows⟩ := a_tag_ends_with_its_quotes_iff_no_bracket_stands_in_it
    "<input type='text'/>".toList "title".toList [] " type='text'/".toList []
    "<tooldrawer-eyebrow text='Layout' />".toList " text='Layout' ".toList
  have hinput := hinputs (by decide) (by decide) (by decide)
  have heyebrow := heyebrows (by decide)
  have hattrs : Attributes.ofChars " text='Layout' ".toList = ⟨[("text", "Layout")]⟩ := by
    decide +kernel
  rw [List.nil_append, List.append_nil, hattrs] at heyebrow
  refine ⟨hinput.2 (by decide), heyebrow.2 ⟨⟨by decide, by decide +kernel⟩, ?_⟩⟩
  rintro ⟨start, hstart, -, hname⟩
  rw [List.suffix_nil.1 hstart] at hname
  exact absurd hname (by decide)

/-- A bracket within quotes cuts an input in the middle of its value, and keeps an eyebrow from
being written as a block, although both tags end where their quotes say. -/
theorem a_tag_does_not_always_end_with_its_quotes :
    firstInput? "<input placeholder='a > b'/>".toList =
        some ([], " placeholder='a > b'/".toList, []) ∧
      boundInput "title".toList [] " placeholder='a > b'/".toList [] =
        "<input placeholder='a > b' data-bob-path=\"title\"/>".toList ∧
      bindPath "<input placeholder='a > b'/>".toList "title".toList =
        "<input placeholder='a  data-bob-path=\"title\"> b'/>".toList ∧
      quotedEyebrow? "<tooldrawer-eyebrow text='a > b' />".toList =
        some (" text='a > b' ".toList, []) ∧
      expandSimple "<tooldrawer-eyebrow text='a > b' />".toList =
        "<tooldrawer-eyebrow text='a > b' />".toList := by
  decide +kernel

end WidgetSchema.Markup
