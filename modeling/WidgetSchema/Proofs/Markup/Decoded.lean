-- Entities that are decoded once. A text is gone over five times, for one entity after the other,
-- and each turn reads what the turns before it have put in. Of the characters put in only the
-- ampersand begins an entity, and only the angle brackets are decoded behind it. So the turns
-- give what one reading from the left gives, unless the ampersand of an angle bracket's entity
-- is written as an entity itself.
import WidgetSchema.Proofs.Markup.Entities
namespace WidgetSchema.Entity

open Text

variable {cs rest word : List Char} {p : String × String}

/-! ## The entities -/

theorem name_of_mem_table (hp : p ∈ table) :
    ∃ tail, p.1.toList = '&' :: tail ∧ '&' ∉ tail := by
  have hall : ∀ p ∈ table, p.1.toList = '&' :: p.1.toList.tail ∧ '&' ∉ p.1.toList.tail := by decide
  exact ⟨_, hall p hp⟩

theorem name_ne_nil (hp : p ∈ table) : p.1.toList ≠ [] := by
  obtain ⟨tail, hname, -⟩ := name_of_mem_table hp
  rw [hname]
  exact List.cons_ne_nil _ _

theorem char_of_mem_table (hp : p ∈ table) : ∃ c, p.2.toList = [c] := by
  have hall : ∀ p ∈ table, p.2.toList = p.2.toList.head?.toList := by decide
  have hsome : ∀ p ∈ table, p.2.toList.head?.isSome := by decide
  obtain ⟨c, hc⟩ := Option.isSome_iff_exists.1 (hsome p hp)
  refine ⟨c, (hall p hp).trans ?_⟩
  rw [hc]
  rfl

theorem not_name_starts {c : Char} (hp : p ∈ table) (hc : c ≠ '&') :
    ¬ p.1.toList <+: c :: cs := by
  intro hstarts
  obtain ⟨tail, hname, -⟩ := name_of_mem_table hp
  rw [hname] at hstarts
  exact hc (List.cons_prefix_cons.1 hstarts).1.symm

/-- No entity begins with another one. -/
theorem eq_of_name_starts {q : String × String} (hp : p ∈ table) (hq : q ∈ table)
    (h : p.1.toList <+: q.1.toList ++ rest) : p = q := by
  have hfree : ∀ p ∈ table, ∀ q ∈ table, p.1.toList <+: q.1.toList → p = q := by decide
  rcases List.prefix_or_prefix_of_prefix h (List.prefix_append _ rest) with h | h
  · exact hfree p hp q hq h
  · exact (hfree q hq p hp h).symm

/-- A word that none of the decoded characters stands in. -/
def IsUndecoded (word : List Char) : Prop := ∀ p ∈ table, ∀ c ∈ p.2.toList, c ∉ word

theorem isUndecoded_tail {tail : List Char} (hp : p ∈ table) (h : p.1.toList = '&' :: tail) :
    IsUndecoded tail := by
  have hall : ∀ p ∈ table, IsUndecoded p.1.toList.tail := by simp [IsUndecoded, table]
  have htail := hall p hp
  rwa [h, List.tail_cons] at htail

/-! ## A single reading -/

/-- What the entity at the start of a text stands for, and what follows it. -/
def entity? (cs : List Char) : Option (List Char × List Char) :=
  table.findSome? fun (name, c) => (dropWord name.toList cs).map fun rest => (c.toList, rest)

theorem entity?_eq_some {c : List Char} (h : entity? cs = some (c, rest)) :
    ∃ p ∈ table, cs = p.1.toList ++ rest ∧ c = p.2.toList := by
  obtain ⟨p, hp, hdrop⟩ := List.exists_of_findSome?_eq_some h
  obtain ⟨after, hafter, he⟩ := Option.map_eq_some_iff.1 hdrop
  obtain ⟨rfl, rfl⟩ := Prod.mk.inj he
  exact ⟨p, hp, dropWord_eq_some_iff.1 hafter, rfl⟩

theorem entity?_name (hp : p ∈ table) (rest : List Char) :
    entity? (p.1.toList ++ rest) = some (p.2.toList, rest) := by
  simp only [table, List.mem_cons, List.not_mem_nil, or_false] at hp
  rcases hp with rfl | rfl | rfl | rfl | rfl <;> rfl

theorem entity?_eq_none_iff : entity? cs = none ↔ ∀ p ∈ table, ¬ p.1.toList <+: cs := by
  constructor
  · rintro h p hp ⟨rest, rfl⟩
    cases (entity?_name hp rest).symm.trans h
  · intro h
    refine List.findSome?_eq_none_iff.2 fun p hp => ?_
    refine Option.map_eq_none_iff.2 (Option.eq_none_iff_forall_ne_some.2 fun rest hdrop => ?_)
    exact h p hp ⟨rest, (dropWord_eq_some_iff.1 hdrop).symm⟩

theorem length_entity? {c : List Char} (h : entity? cs = some (c, rest)) :
    rest.length < cs.length := by
  obtain ⟨p, hp, rfl, -⟩ := entity?_eq_some h
  have hname := List.length_pos_iff.2 (name_ne_nil hp)
  rw [List.length_append]
  omega

/-- The text with every entity decoded once, read from the left. -/
def decodeOnce (cs : List Char) : List Char :=
  match h : entity? cs with
  | some (c, rest) =>
    have := length_entity? h
    c ++ decodeOnce rest
  | none =>
    match cs with
    | [] => []
    | c :: rest => c :: decodeOnce rest
termination_by cs.length

theorem decodeOnce_nil : decodeOnce [] = [] := by
  rw [decodeOnce]
  rfl

theorem decodeOnce_name (hp : p ∈ table) (rest : List Char) :
    decodeOnce (p.1.toList ++ rest) = p.2.toList ++ decodeOnce rest := by
  rw [decodeOnce]
  split
  · rename_i hsome
    cases (entity?_name hp rest).symm.trans hsome
    rfl
  · rename_i hnone
    cases (entity?_name hp rest).symm.trans hnone

theorem decodeOnce_cons {c : Char} (h : ∀ p ∈ table, ¬ p.1.toList <+: c :: cs) :
    decodeOnce (c :: cs) = c :: decodeOnce cs := by
  rw [decodeOnce]
  split
  · rename_i hsome
    cases (entity?_eq_none_iff.2 h).symm.trans hsome
  · rfl

/-! ## The turns -/

/-- A text after the turns for some of the entities. -/
def turns (entities : List (String × String)) (cs : List Char) : List Char :=
  entities.foldl (fun cs p => replaceChars p.1.toList p.2.toList cs) cs

theorem turns_first (p : String × String) (entities : List (String × String)) (cs : List Char) :
    turns (p :: entities) cs = turns entities (replaceChars p.1.toList p.2.toList cs) := rfl

theorem turns_append (as bs : List (String × String)) (cs : List Char) :
    turns (as ++ bs) cs = turns bs (turns as cs) := List.foldl_append

theorem decodeChars_eq_turns (cs : List Char) : decodeChars cs = turns table cs := rfl

section Turns

variable {entities : List (String × String)} (hsub : entities ⊆ table)
include hsub

theorem turns_nil : turns entities [] = [] := by
  induction entities with
  | nil => rfl
  | cons p entities ih =>
    have hname := name_ne_nil (hsub List.mem_cons_self)
    rw [turns_first, replaceChars_nil hname, ih fun q hq => hsub (List.mem_cons_of_mem p hq)]

/-- No turn puts in a word that is made of other characters. -/
theorem prefix_of_prefix_turns (hword : IsUndecoded word) (h : word <+: turns entities cs) :
    word <+: cs := by
  induction entities generalizing cs with
  | nil => exact h
  | cons p entities ih =>
    have hp := hsub List.mem_cons_self
    obtain ⟨c, hc⟩ := char_of_mem_table hp
    rw [turns_first, hc] at h
    have hturn := ih (fun q hq => hsub (List.mem_cons_of_mem p hq)) h
    exact prefix_of_prefix_replaceChars (name_ne_nil hp) (hword p hp c (hc ▸ List.mem_cons_self))
      hturn

/-- A character that begins no entity is passed over by all turns. -/
theorem turns_cons {c : Char} (h : ∀ p ∈ entities, ¬ p.1.toList <+: c :: cs) :
    turns entities (c :: cs) = c :: turns entities cs := by
  induction entities generalizing cs with
  | nil => rfl
  | cons p entities ih =>
    have hp := hsub List.mem_cons_self
    have hsub' : entities ⊆ table := fun q hq => hsub (List.mem_cons_of_mem p hq)
    have hturn : replaceChars p.1.toList p.2.toList (c :: cs) =
        c :: replaceChars p.1.toList p.2.toList cs :=
      replaceChars_cons (name_ne_nil hp) (h p List.mem_cons_self)
    rw [turns_first, turns_first, hturn]
    refine ih hsub' fun q hq hstarts => ?_
    -- What begins an entity behind the turn began it in front of the turn.
    obtain ⟨tail, hname, -⟩ := name_of_mem_table (hsub' hq)
    rw [hname] at hstarts
    obtain ⟨rfl, htail⟩ := List.cons_prefix_cons.1 hstarts
    have hundecoded := isUndecoded_tail (hsub' hq) hname
    have hbefore : tail <+: cs :=
      @prefix_of_prefix_turns _ _ [p] (fun r hr => List.mem_singleton.1 hr ▸ hp) hundecoded htail
    refine h q (List.mem_cons_of_mem p hq) ?_
    rw [hname]
    exact List.cons_prefix_cons.2 ⟨rfl, hbefore⟩

theorem turns_cons_of_ne {c : Char} (hc : c ≠ '&') (cs : List Char) :
    turns entities (c :: cs) = c :: turns entities cs :=
  turns_cons hsub fun _ hp => not_name_starts (hsub hp) hc

theorem turns_append_of_notMem (h : '&' ∉ word) (rest : List Char) :
    turns entities (word ++ rest) = word ++ turns entities rest := by
  induction word with
  | nil => rfl
  | cons c word ih =>
    rw [List.mem_cons, not_or] at h
    rw [List.cons_append, turns_cons_of_ne hsub (Ne.symm h.1), ih h.2, List.cons_append]

/-- An entity stays until its own turn. -/
theorem turns_name (hp : p ∈ table) (hnot : p ∉ entities) (rest : List Char) :
    turns entities (p.1.toList ++ rest) = p.1.toList ++ turns entities rest := by
  obtain ⟨tail, hname, htail⟩ := name_of_mem_table hp
  have hfront : ∀ q ∈ entities, ¬ q.1.toList <+: '&' :: (tail ++ rest) := by
    intro q hq hstarts
    rw [← List.cons_append, ← hname] at hstarts
    exact hnot (eq_of_name_starts (hsub hq) hp hstarts ▸ hq)
  rw [hname, List.cons_append, turns_cons hsub hfront, turns_append_of_notMem hsub htail,
    List.cons_append]

end Turns

/-- In its own turn an entity is decoded, and what it stands for stays, unless a later turn reads
it again. -/
theorem turns_name_self {before after : List (String × String)}
    (hsub : before ++ p :: after ⊆ table) (hnot : p ∉ before)
    (h : ∀ q ∈ after, ¬ q.1.toList <+: p.2.toList ++ rest) :
    turns (before ++ p :: after) (p.1.toList ++ rest) =
      p.2.toList ++ turns (before ++ p :: after) rest := by
  have hp : p ∈ table := hsub (by simp)
  have hbefore : before ⊆ table := fun q hq => hsub (List.mem_append_left _ hq)
  have hturn : [p] ⊆ table := fun q hq => List.mem_singleton.1 hq ▸ hp
  have hafter : after ⊆ table := fun q hq => hsub (by simp [hq])
  obtain ⟨c, hc⟩ := char_of_mem_table hp
  have hfront : ∀ q ∈ after, ¬ q.1.toList <+:
      c :: replaceChars p.1.toList p.2.toList (turns before rest) := by
    intro q hq hstarts
    obtain ⟨tail, hname, -⟩ := name_of_mem_table (hafter hq)
    rw [hname] at hstarts
    obtain ⟨rfl, htail⟩ := List.cons_prefix_cons.1 hstarts
    have hundecoded := isUndecoded_tail (hafter hq) hname
    have hrest := prefix_of_prefix_turns hbefore hundecoded
      (prefix_of_prefix_turns hturn hundecoded htail)
    refine h q hq ?_
    rw [hname, hc]
    exact List.cons_prefix_cons.2 ⟨rfl, hrest⟩
  have hlater := turns_cons hafter hfront
  rw [turns_append, turns_append, turns_first, turns_first, turns_name hbefore hp hnot,
    replaceChars_word (name_ne_nil hp)]
  rw [hc] at hlater ⊢
  exact hlater

/-! ## Decoding a text from its start -/

theorem decodeChars_nil : decodeChars [] = [] := turns_nil (List.Subset.refl _)

theorem decodeChars_cons {c : Char} (h : ∀ p ∈ table, ¬ p.1.toList <+: c :: cs) :
    decodeChars (c :: cs) = c :: decodeChars cs := turns_cons (List.Subset.refl _) h

theorem decodeChars_append_of_notMem (h : '&' ∉ word) (rest : List Char) :
    decodeChars (word ++ rest) = word ++ decodeChars rest :=
  turns_append_of_notMem (List.Subset.refl _) h rest

def ampersand : String × String := ("&amp;", "&")

/-- The entities that are decoded in front of the ampersand. -/
def quotes : List (String × String) := [("&quot;", "\""), ("&apos;", "'")]

/-- The entities that are decoded behind the ampersand. -/
def angles : List (String × String) := [("&lt;", "<"), ("&gt;", ">")]

theorem table_eq : table = quotes ++ ampersand :: angles := rfl

theorem toList_ampersand : ampersand.2.toList = ['&'] := by decide

theorem angles_subset : angles ⊆ table := by decide

/-- The entities of other characters are decoded once wherever they stand. -/
theorem decodeChars_name (hp : p ∈ table) (hne : p ≠ ampersand) (rest : List Char) :
    decodeChars (p.1.toList ++ rest) = p.2.toList ++ decodeChars rest := by
  have hchar : ∀ p ∈ table, p ≠ ampersand → '&' ∉ p.2.toList := by decide
  obtain ⟨before, after, htable, hnot⟩ := List.eq_append_cons_of_mem hp
  have hsub : before ++ p :: after ⊆ table := by rw [htable]; exact List.Subset.refl _
  rw [decodeChars_eq_turns, decodeChars_eq_turns, htable]
  refine turns_name_self hsub hnot fun q hq hstarts => ?_
  obtain ⟨tail, hname, -⟩ := name_of_mem_table (p := q) (by rw [htable]; simp [hq])
  obtain ⟨c, hc⟩ := char_of_mem_table hp
  rw [hname, hc] at hstarts
  exact hchar p hp hne (hc ▸ (List.cons_prefix_cons.1 hstarts).1 ▸ List.mem_cons_self)

/-- So is the ampersand where the rest of no angle bracket's entity follows it. -/
theorem decodeChars_ampersand (h : ∀ q ∈ angles, ¬ q.1.toList <+: '&' :: rest) :
    decodeChars (ampersand.1.toList ++ rest) = ampersand.2.toList ++ decodeChars rest := by
  have hsub : quotes ++ ampersand :: angles ⊆ table := by
    rw [← table_eq]
    exact List.Subset.refl _
  rw [decodeChars_eq_turns, decodeChars_eq_turns, table_eq]
  refine turns_name_self hsub (by decide) ?_
  rw [toList_ampersand]
  exact h

/-- Otherwise both are decoded. -/
theorem decodeChars_doubled {q : String × String} {tail : List Char} (hq : q ∈ angles)
    (hname : q.1.toList = '&' :: tail) (rest : List Char) :
    decodeChars (ampersand.1.toList ++ (tail ++ rest)) = q.2.toList ++ decodeChars rest := by
  have hquotes : quotes ⊆ table := by decide
  have hturn : [ampersand] ⊆ table := by decide
  have hself : ∀ cs,
      turns [ampersand] (ampersand.1.toList ++ cs) = '&' :: turns [ampersand] cs := by
    intro cs
    have hturned := @turns_name_self cs ampersand [] [] hturn List.not_mem_nil nofun
    rwa [toList_ampersand] at hturned
  obtain ⟨tail', hname', htail⟩ := name_of_mem_table (angles_subset hq)
  obtain rfl := (List.cons.inj (hname.symm.trans hname')).2
  have hdecoded : ∀ cs, turns angles ('&' :: (tail ++ cs)) = q.2.toList ++ turns angles cs := by
    intro cs
    have hall : ∀ q ∈ angles, '&' ∉ q.2.toList := by decide
    obtain ⟨before, after, hsplit, hnot⟩ := List.eq_append_cons_of_mem hq
    have hsub : before ++ q :: after ⊆ table := hsplit ▸ angles_subset
    rw [← List.cons_append, ← hname, hsplit]
    refine turns_name_self hsub hnot fun r hr hstarts => ?_
    have hr : r ∈ angles := by rw [hsplit]; simp [hr]
    obtain ⟨rest', hrest', -⟩ := name_of_mem_table (angles_subset hr)
    obtain ⟨c, hc⟩ := char_of_mem_table (angles_subset hq)
    rw [hrest', hc] at hstarts
    exact hall q hq (hc ▸ (List.cons_prefix_cons.1 hstarts).1 ▸ List.mem_cons_self)
  have hsplit : ∀ cs, decodeChars cs = turns angles (turns [ampersand] (turns quotes cs)) := by
    intro cs
    rw [decodeChars_eq_turns, table_eq, turns_append, turns_first ampersand, turns_first ampersand]
    rfl
  rw [hsplit, hsplit, turns_name hquotes (by decide) (by decide),
    turns_append_of_notMem hquotes htail, hself, turns_append_of_notMem hturn htail, hdecoded]

/-! ## Once or twice -/

/-- The ampersand of an angle bracket's entity is written as an entity. -/
def HoldsDoubled (cs : List Char) : Prop :=
  "&amp;lt;".toList <:+: cs ∨ "&amp;gt;".toList <:+: cs

instance : DecidablePred HoldsDoubled := fun _ => inferInstanceAs (Decidable (_ ∨ _))

theorem holdsDoubled_iff : HoldsDoubled cs ↔
    ∃ q ∈ angles, ∃ tail, q.1.toList = '&' :: tail ∧ ampersand.1.toList ++ tail <:+: cs := by
  constructor
  · rintro (h | h)
    · exact ⟨("&lt;", "<"), by decide, "lt;".toList, by decide, h⟩
    · exact ⟨("&gt;", ">"), by decide, "gt;".toList, by decide, h⟩
  · rintro ⟨q, hq, tail, hname, h⟩
    simp only [angles, List.mem_cons, List.not_mem_nil, or_false] at hq
    rcases hq with rfl | rfl
    · obtain rfl : "lt;".toList = tail := (List.cons.inj hname).2
      exact .inl h
    · obtain rfl : "gt;".toList = tail := (List.cons.inj hname).2
      exact .inr h

theorem HoldsDoubled.append (h : HoldsDoubled rest) (word : List Char) :
    HoldsDoubled (word ++ rest) :=
  h.imp (·.trans (List.suffix_append word rest).isInfix)
    (·.trans (List.suffix_append word rest).isInfix)

theorem holdsDoubled_name (hp : p ∈ table) : HoldsDoubled (p.1.toList ++ rest) ↔
    (p = ampersand ∧ ∃ q ∈ angles, q.1.toList <+: '&' :: rest) ∨ HoldsDoubled rest := by
  constructor
  · intro h
    obtain ⟨q, hq, tail, hname, hin⟩ := holdsDoubled_iff.1 h
    obtain ⟨more, hmore, hfree⟩ := name_of_mem_table hp
    have hword : ampersand.1.toList ++ tail = '&' :: ("amp;".toList ++ tail) := rfl
    rw [hmore, List.cons_append, List.infix_cons_iff, ← List.cons_append, ← hmore] at hin
    rcases hin with hstarts | hin
    · obtain rfl : ampersand = p :=
        eq_of_name_starts (by decide) hp ((List.prefix_append _ tail).trans hstarts)
      refine .inl ⟨rfl, q, hq, ?_⟩
      rw [hname]
      exact List.cons_prefix_cons.2 ⟨rfl, (List.prefix_append_right_inj _).1 hstarts⟩
    · rw [hword] at hin
      exact .inr (holdsDoubled_iff.2 ⟨q, hq, tail, hname, infix_of_infix_append hfree hin⟩)
  · rintro (⟨rfl, q, hq, hstarts⟩ | h)
    · obtain ⟨tail, hname, -⟩ := name_of_mem_table (angles_subset hq)
      rw [hname] at hstarts
      have htail := (List.cons_prefix_cons.1 hstarts).2
      refine holdsDoubled_iff.2 ⟨q, hq, tail, hname, ?_⟩
      exact ((List.prefix_append_right_inj _).2 htail).isInfix
    · exact h.append p.1.toList

theorem holdsDoubled_cons {c : Char} (hc : ∀ p ∈ table, ¬ p.1.toList <+: c :: cs) :
    HoldsDoubled (c :: cs) ↔ HoldsDoubled cs := by
  refine ⟨fun h => ?_, fun h => h.append [c]⟩
  obtain ⟨q, hq, tail, hname, hin⟩ := holdsDoubled_iff.1 h
  rcases List.infix_cons_iff.1 hin with hstarts | hin
  · exact absurd ((List.prefix_append _ tail).trans hstarts) (hc ampersand (by decide))
  · exact holdsDoubled_iff.2 ⟨q, hq, tail, hname, hin⟩

/-- Without such an ampersand the turns are one reading. -/
theorem decodeChars_eq_decodeOnce (h : ¬ HoldsDoubled cs) : decodeChars cs = decodeOnce cs := by
  fun_induction decodeOnce cs with
  | case1 cs c rest hentity _ ih =>
    obtain ⟨p, hp, rfl, rfl⟩ := entity?_eq_some hentity
    rw [holdsDoubled_name hp, not_or] at h
    by_cases hamp : p = ampersand
    · subst hamp
      rw [decodeChars_ampersand fun q hq hstarts => h.1 ⟨rfl, q, hq, hstarts⟩, ih h.2]
    · rw [decodeChars_name hp hamp, ih h.2]
  | case2 => exact decodeChars_nil
  | case3 c rest hentity ih =>
    have hfront := entity?_eq_none_iff.1 hentity
    rw [decodeChars_cons hfront, ih (mt (holdsDoubled_cons hfront).2 h)]

/-- The turns leave no more of a text than one reading, and less where there is one. -/
theorem length_decodeChars (cs : List Char) :
    (decodeChars cs).length ≤ (decodeOnce cs).length ∧
      (HoldsDoubled cs → (decodeChars cs).length < (decodeOnce cs).length) := by
  fun_induction decodeOnce cs with
  | case1 cs c rest hentity _ ih =>
    obtain ⟨p, hp, rfl, rfl⟩ := entity?_eq_some hentity
    rw [holdsDoubled_name hp]
    by_cases hdoubled : p = ampersand ∧ ∃ q ∈ angles, q.1.toList <+: '&' :: rest
    · -- The turns decode both entities, and one reading keeps the rest of the bracket's.
      obtain ⟨rfl, q, hq, hstarts⟩ := hdoubled
      obtain ⟨tail, hname, htail⟩ := name_of_mem_table (angles_subset hq)
      obtain ⟨c, hc⟩ := char_of_mem_table (angles_subset hq)
      rw [hname] at hstarts
      obtain ⟨more, rfl⟩ := (List.cons_prefix_cons.1 hstarts).2
      have hall : ∀ q ∈ angles, 1 < q.1.toList.length := by decide
      have hpos : 1 < tail.length + 1 := by
        rw [← List.length_cons, ← hname]
        exact hall q hq
      have hle := ih.1
      rw [decodeChars_append_of_notMem htail, List.length_append] at hle
      rw [decodeChars_doubled hq hname, hc, toList_ampersand, List.length_append,
        List.length_append, List.length_singleton, List.length_singleton]
      omega
    · have hturn : decodeChars (p.1.toList ++ rest) = p.2.toList ++ decodeChars rest := by
        by_cases hamp : p = ampersand
        · subst hamp
          exact decodeChars_ampersand fun q hq hstarts => hdoubled ⟨rfl, q, hq, hstarts⟩
        · exact decodeChars_name hp hamp rest
      rw [hturn, List.length_append, List.length_append]
      exact ⟨Nat.add_le_add_left ih.1 _,
        fun h => Nat.add_lt_add_left (ih.2 (h.resolve_left hdoubled)) _⟩
  | case2 => exact ⟨Nat.le_of_eq (congrArg _ decodeChars_nil), fun h => absurd h (by decide)⟩
  | case3 c rest hentity ih =>
    have hfront := entity?_eq_none_iff.1 hentity
    rw [decodeChars_cons hfront, holdsDoubled_cons hfront, List.length_cons, List.length_cons]
    exact ⟨Nat.succ_le_succ ih.1, fun h => Nat.succ_lt_succ (ih.2 h)⟩

theorem decodeChars_eq_decodeOnce_iff : decodeChars cs = decodeOnce cs ↔ ¬ HoldsDoubled cs := by
  refine ⟨fun h hdoubled => ?_, decodeChars_eq_decodeOnce⟩
  have hlt := (length_decodeChars cs).2 hdoubled
  rw [h] at hlt
  exact Nat.lt_irrefl _ hlt

/-! ## Encoding -/

/-- A character as it is written where entities are decoded. -/
def entityOf (c : Char) : List Char :=
  ((table.find? fun p => p.2.toList = [c]).map (·.1.toList)).getD [c]

def encodeChars (cs : List Char) : List Char := cs.flatMap entityOf

theorem entityOf_cases (c : Char) :
    (∃ p ∈ table, p.2.toList = [c] ∧ entityOf c = p.1.toList) ∨ c ≠ '&' ∧ entityOf c = [c] := by
  unfold entityOf
  rcases hfind : table.find? fun p => p.2.toList = [c] with _ | p
  · refine .inr ⟨?_, by rw [hfind]; rfl⟩
    rintro rfl
    exact absurd hfind (by decide)
  · have hchar := List.find?_some hfind
    exact .inl ⟨p, List.mem_of_find?_eq_some hfind, by simpa using hchar, by rw [hfind]; rfl⟩

theorem encodeChars_cons (c : Char) (cs : List Char) :
    encodeChars (c :: cs) = entityOf c ++ encodeChars cs := List.flatMap_cons

/-- One reading undoes encoding. -/
theorem decodeOnce_encodeChars (cs : List Char) : decodeOnce (encodeChars cs) = cs := by
  induction cs with
  | nil => exact decodeOnce_nil
  | cons c cs ih =>
    rw [encodeChars_cons]
    rcases entityOf_cases c with ⟨p, hp, hchar, hentity⟩ | ⟨hc, hentity⟩
    · rw [hentity, decodeOnce_name hp, hchar, ih, List.singleton_append]
    · rw [hentity, List.singleton_append, decodeOnce_cons fun p hp => not_name_starts hp hc, ih]

theorem prefix_encodeChars_iff (hword : IsUndecoded word) :
    word <+: encodeChars cs ↔ word <+: cs := by
  induction cs generalizing word with
  | nil => exact Iff.rfl
  | cons c cs ih =>
    cases word with
    | nil => simp
    | cons d word =>
      have hrest : IsUndecoded word := fun p hp e he hmem =>
        hword p hp e he (List.mem_cons_of_mem d hmem)
      rw [encodeChars_cons]
      rcases entityOf_cases c with ⟨p, hp, hchar, hentity⟩ | ⟨-, hentity⟩
      · have hfirst : d ≠ c := by
          rintro rfl
          exact hword p hp d (by simp [hchar]) List.mem_cons_self
        have hamp : d ≠ '&' := by
          rintro rfl
          exact hword ampersand (by decide) '&' (by decide) List.mem_cons_self
        obtain ⟨tail, hname, -⟩ := name_of_mem_table hp
        rw [hentity, hname, List.cons_append, List.cons_prefix_cons, List.cons_prefix_cons]
        exact iff_of_false (fun h => hamp h.1) fun h => hfirst h.1
      · rw [hentity, List.singleton_append, List.cons_prefix_cons, List.cons_prefix_cons, ih hrest]

/-- The entity of an angle bracket stands in the text. -/
def HoldsAngle (cs : List Char) : Prop := "&lt;".toList <:+: cs ∨ "&gt;".toList <:+: cs

theorem holdsAngle_cons {c : Char} : HoldsAngle (c :: cs) ↔
    (∃ q ∈ angles, q.1.toList <+: c :: cs) ∨ HoldsAngle cs := by
  simp only [HoldsAngle, List.infix_cons_iff, angles, List.mem_cons, List.not_mem_nil, or_false,
    exists_eq_or_imp, exists_eq_left]
  tauto

theorem angle_prefix_encodeChars {q : String × String} (hq : q ∈ angles) :
    q.1.toList <+: '&' :: encodeChars cs ↔ q.1.toList <+: '&' :: cs := by
  obtain ⟨tail, hname, -⟩ := name_of_mem_table (angles_subset hq)
  rw [hname, List.cons_prefix_cons, List.cons_prefix_cons,
    prefix_encodeChars_iff (isUndecoded_tail (angles_subset hq) hname)]

/-- An ampersand is encoded, and what follows it in the entity of an angle bracket is not. -/
theorem holdsDoubled_encodeChars : HoldsDoubled (encodeChars cs) ↔ HoldsAngle cs := by
  induction cs with
  | nil => exact iff_of_false (by decide) (by unfold HoldsAngle; decide)
  | cons c cs ih =>
    rw [encodeChars_cons, holdsAngle_cons]
    rcases entityOf_cases c with ⟨p, hp, hchar, hentity⟩ | ⟨hc, hentity⟩
    · rw [hentity, holdsDoubled_name hp, ih]
      refine or_congr_left ⟨?_, ?_⟩
      · rintro ⟨rfl, q, hq, hstarts⟩
        obtain rfl : '&' = c := (List.cons.inj hchar).1
        exact ⟨q, hq, (angle_prefix_encodeChars hq).1 hstarts⟩
      · rintro ⟨q, hq, hstarts⟩
        have hc : c = '&' := by
          by_contra hc
          exact not_name_starts (angles_subset hq) hc hstarts
        subst hc
        have hall : ∀ p ∈ table, p.2.toList = ['&'] → p = ampersand := by decide
        exact ⟨hall p hp hchar, q, hq, (angle_prefix_encodeChars hq).2 hstarts⟩
    · have hnone : ¬ ∃ q ∈ angles, q.1.toList <+: c :: cs := by
        rintro ⟨q, hq, hstarts⟩
        exact not_name_starts (angles_subset hq) hc hstarts
      rw [hentity, List.singleton_append, holdsDoubled_cons fun p hp => not_name_starts hp hc, ih,
        or_iff_right hnone]

theorem decodeChars_encodeChars_iff : decodeChars (encodeChars cs) = cs ↔ ¬ HoldsAngle cs := by
  have hiff := @decodeChars_eq_decodeOnce_iff (encodeChars cs)
  rwa [decodeOnce_encodeChars, holdsDoubled_encodeChars] at hiff

/-! ## Texts -/

/-- The text with every entity decoded once, read from the left. -/
def readOnce (s : String) : String := String.ofList (decodeOnce s.toList)

/-- The text with the five characters written as entities. -/
def encode (s : String) : String := String.ofList (encodeChars s.toList)

/-- Decoding is one reading from the left just where the text writes no ampersand of an angle
bracket's entity as an entity, and it undoes encoding just where the text holds no such entity.
One reading undoes encoding always. -/
theorem entities_are_decoded_once_unless_an_ampersand_is_encoded (s : String) :
    (decode s = readOnce s ↔ ¬ HoldsDoubled s.toList) ∧
      readOnce (encode s) = s ∧ (decode (encode s) = s ↔ ¬ HoldsAngle s.toList) := by
  refine ⟨?_, ?_, ?_⟩
  · rw [decode, readOnce, String.ofList_inj, decodeChars_eq_decodeOnce_iff]
  · rw [readOnce, encode, String.toList_ofList, decodeOnce_encodeChars, String.ofList_toList]
  · rw [decode, encode, String.toList_ofList, ← String.toList_inj, String.toList_ofList,
      decodeChars_encodeChars_iff]

/-- The text of an entity, encoded, is decoded to the bracket that the entity stands for. -/
theorem an_encoded_text_does_not_always_come_back :
    ¬ ∀ s, decode s = readOnce s ∧ decode (encode s) = s := by
  intro h
  have hback := (h "&lt;").2
  rw [decode, encode, String.toList_ofList, ← String.toList_inj, String.toList_ofList,
    decodeChars_encodeChars_iff] at hback
  exact hback (.inl (by decide))

end WidgetSchema.Entity
