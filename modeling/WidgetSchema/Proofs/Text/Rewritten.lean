-- Passes over a text. A pass reads a text from the left and writes something else for each item
-- that it finds. An item starts with an opening bracket and ends with its only closing bracket, so
-- behind a closing bracket a pass starts anew, and two texts that no item lies across are gone
-- through one after the other.
import Mathlib.Data.List.Infix
namespace WidgetSchema.Text

/-- A pass that writes a text for each item, and keeps what is not of an item. -/
structure Rewrites (item : List Char → List Char → Prop) (run : List Char → List Char) :
    Prop where
  nil : run [] = []
  hit : ∀ {word out : List Char}, item word out → ∀ rest, run (word ++ rest) = out ++ run rest
  miss : ∀ {c : Char} {cs : List Char}, (∀ word out, item word out → ¬ word <+: c :: cs) →
    run (c :: cs) = c :: run cs
  bracketed : ∀ {word out : List Char}, item word out →
    ∃ inside, word = '<' :: (inside ++ ['>']) ∧ '>' ∉ inside

/-- A text that is empty or ends with a closing bracket. -/
def IsClosed (cs : List Char) : Prop := cs = [] ∨ cs.getLast? = some '>'

theorem isClosed_concat (cs : List Char) : IsClosed (cs ++ ['>']) := .inr List.getLast?_concat

/-- Every text is a closed one with a tail behind it that holds no closing bracket. -/
theorem exists_closed_append (cs : List Char) :
    ∃ closed tail, cs = closed ++ tail ∧ IsClosed closed ∧ '>' ∉ tail := by
  induction cs with
  | nil => exact ⟨[], [], rfl, .inl rfl, List.not_mem_nil⟩
  | cons c cs ih =>
    obtain ⟨closed, tail, rfl, hclosed, htail⟩ := ih
    rcases hclosed with rfl | hlast
    · by_cases hc : c = '>'
      · exact ⟨['>'], tail, by rw [hc]; rfl, .inr rfl, htail⟩
      · exact ⟨[], c :: tail, rfl, .inl rfl, by simp [Ne.symm hc, htail]⟩
    · exact ⟨c :: closed, tail, rfl, .inr (by rw [List.getLast?_cons, hlast]; rfl), htail⟩

/-- No item starts in a text and ends in the next. -/
def Apart (item : List Char → List Char → Prop) (as bs : List Char) : Prop :=
  ∀ start, start <:+ as → start ≠ [] → ∀ word out, item word out →
    word <+: start ++ bs → word <+: start

namespace Rewrites

variable {item : List Char → List Char → Prop} {run : List Char → List Char}
variable {as bs cs word out : List Char} {c : Char}

/-- Two texts with no item across are gone through one after the other. -/
theorem append (h : Rewrites item run) (hapart : Apart item as bs) :
    run (as ++ bs) = run as ++ run bs := by
  induction hn : as.length using Nat.strongRecOn generalizing as with
  | _ n ih =>
    subst hn
    rcases as with _ | ⟨a, as⟩
    · rw [h.nil]
      rfl
    · by_cases hitem : ∃ word out, item word out ∧ word <+: a :: as ++ bs
      · obtain ⟨word, out, hitem, hstarts⟩ := hitem
        obtain ⟨rest, hrest⟩ :=
          hapart (a :: as) List.suffix_rfl (List.cons_ne_nil _ _) word out hitem hstarts
        obtain ⟨inside, hword, -⟩ := h.bracketed hitem
        have hshorter : rest.length < (a :: as).length := by
          rw [← hrest, hword, List.length_append, List.length_cons]
          omega
        have hlater : Apart item rest bs := fun start hstart =>
          hapart start (hstart.trans ⟨word, hrest⟩)
        rw [← hrest, List.append_assoc, h.hit hitem, h.hit hitem, ih _ hshorter hlater rfl,
          List.append_assoc]
      · have hmiss : ∀ word out, item word out → ¬ word <+: a :: (as ++ bs) :=
          fun word out hw hp => hitem ⟨word, out, hw, hp⟩
        have hfirst : ∀ word out, item word out → ¬ word <+: a :: as :=
          fun word out hw hp => hmiss word out hw (hp.trans (List.prefix_append _ bs))
        have hlater : Apart item as bs := fun start hstart =>
          hapart start (hstart.trans (List.suffix_cons a as))
        rw [List.cons_append, h.miss hmiss, h.miss hfirst,
          ih as.length (Nat.lt_succ_self _) hlater rfl, List.cons_append]

theorem cons_of_ne (h : Rewrites item run) (hc : c ≠ '<') (cs : List Char) :
    run (c :: cs) = c :: run cs := by
  refine h.miss fun word out hitem hstarts => ?_
  obtain ⟨inside, rfl, -⟩ := h.bracketed hitem
  exact hc (List.cons_prefix_cons.1 hstarts).1.symm

/-- What holds no opening bracket is kept. -/
theorem text (h : Rewrites item run) (has : '<' ∉ as) (bs : List Char) :
    run (as ++ bs) = as ++ run bs := by
  induction as with
  | nil => rfl
  | cons a as ih =>
    rw [List.mem_cons, not_or] at has
    rw [List.cons_append, h.cons_of_ne (Ne.symm has.1), ih has.2, List.cons_append]

/-- A text without an item is kept. -/
theorem absent (h : Rewrites item run) (hcs : ∀ word out, item word out → ¬ word <:+: cs) :
    run cs = cs := by
  induction cs with
  | nil => exact h.nil
  | cons c cs ih =>
    rw [h.miss fun word out hitem hp => hcs word out hitem hp.isInfix,
      ih fun word out hitem hin => hcs word out hitem (hin.trans (List.suffix_cons c cs).isInfix)]

/-- So is a text that no closing bracket stands in. -/
theorem unclosed (h : Rewrites item run) (hcs : '>' ∉ cs) : run cs = cs := by
  refine h.absent fun word out hitem hin => hcs (hin.subset ?_)
  obtain ⟨inside, rfl, -⟩ := h.bracketed hitem
  simp

/-- An item in two texts ends in the first, or else at the first closing bracket of the second. -/
theorem prefix_or_ends (h : Rewrites item run) (hitem : item word out) (hword : word <+: as ++ bs) :
    word <+: as ∨ '>' ∉ as ∧ ∃ before rest, bs = before ++ '>' :: rest ∧ '>' ∉ before ∧
      word = as ++ (before ++ ['>']) := by
  obtain ⟨inside, rfl, hinside⟩ := h.bracketed hitem
  obtain ⟨rest, hrest⟩ := hword
  rcases List.append_eq_append_iff.1 hrest with ⟨more, has, -⟩ | ⟨more, has, hmore⟩
  · exact .inl ⟨more, has.symm⟩
  · rcases List.eq_nil_or_concat more with rfl | ⟨before, last, rfl⟩
    · rw [List.append_nil] at has
      exact .inl (has ▸ List.prefix_rfl)
    · have hparts : '<' :: inside ++ ['>'] = as ++ before ++ [last] := by
        rw [List.cons_append, has]
        simp
      obtain ⟨hbefore, hlast⟩ := List.append_inj' hparts rfl
      obtain rfl := List.singleton_inj.1 hlast
      have hfree : '>' ∉ as ++ before := by
        rw [← hbefore, List.mem_cons, not_or]
        exact ⟨by decide, hinside⟩
      rw [List.mem_append, not_or] at hfree
      exact .inr ⟨hfree.1, before, rest, by rw [hmore]; simp, hfree.2, by rw [has]; simp⟩

/-- Behind a closing bracket a pass starts anew. -/
theorem append_of_closed (h : Rewrites item run) (has : IsClosed as) (bs : List Char) :
    run (as ++ bs) = run as ++ run bs := by
  refine h.append fun start hstart hne word out hitem hword => ?_
  have hlast : '>' ∈ start := by
    obtain ⟨before, rfl⟩ := hstart
    rcases has with has | has
    · exact absurd (List.append_eq_nil_iff.1 has).2 hne
    · rw [List.getLast?_append_of_ne_nil _ hne] at has
      exact List.mem_of_getLast? has
  exact (h.prefix_or_ends hitem hword).resolve_right fun hends => hends.1 hlast

/-- A text up to its only closing bracket is kept, or it ends in an item. -/
theorem closed_cases (h : Rewrites item run) (hcs : '>' ∉ cs) : run (cs ++ ['>']) = cs ++ ['>'] ∨
    ∃ before word out, item word out ∧ cs ++ ['>'] = before ++ word ∧
      run (cs ++ ['>']) = before ++ out := by
  induction cs with
  | nil => exact .inl (by rw [List.nil_append, h.cons_of_ne (by decide), h.nil])
  | cons c cs ih =>
    rw [List.mem_cons, not_or] at hcs
    by_cases hitem : ∃ word out, item word out ∧ word <+: c :: cs ++ ['>']
    · obtain ⟨word, out, hitem, hword⟩ := hitem
      refine .inr ⟨[], word, out, hitem, ?_⟩
      have hwhole : c :: cs ++ ['>'] = word := by
        rcases h.prefix_or_ends hitem hword with hp | ⟨-, before, rest, hbefore, -, hend⟩
        · obtain ⟨inside, rfl, -⟩ := h.bracketed hitem
          have hmem : '>' ∈ c :: cs := hp.subset (by simp)
          exact absurd hmem (by rw [List.mem_cons, not_or]; exact hcs)
        · rcases before with _ | ⟨b, before⟩
          · exact hend.symm
          · have htail := (List.cons.inj hbefore).2
            simp at htail
      refine ⟨hwhole, ?_⟩
      have hrun := h.hit hitem []
      rwa [List.append_nil, ← hwhole, h.nil, List.append_nil] at hrun
    · have hmiss : ∀ word out, item word out → ¬ word <+: c :: (cs ++ ['>']) :=
        fun word out hw hp => hitem ⟨word, out, hw, hp⟩
      rw [List.cons_append, h.miss hmiss]
      rcases ih hcs.2 with hkept | ⟨before, word, out, hitem, hsplit, hrun⟩
      · exact .inl (by rw [hkept])
      · exact .inr ⟨c :: before, word, out, hitem, by rw [hsplit]; rfl, by rw [hrun]; rfl⟩

/-- A text that ends with a closing bracket still does, when what is written does. -/
theorem getLast?_closed (h : Rewrites item run)
    (hout : ∀ word out, item word out → out.getLast? = some '>') (cs : List Char) :
    (run (cs ++ ['>'])).getLast? = some '>' := by
  induction hn : cs.length using Nat.strongRecOn generalizing cs with
  | _ n ih =>
    subst hn
    by_cases hcs : '>' ∈ cs
    · obtain ⟨inside, later, rfl, -⟩ := List.eq_append_cons_of_mem hcs
      have hshorter : later.length < (inside ++ '>' :: later).length := by
        rw [List.length_append, List.length_cons]
        omega
      have hsplit : inside ++ '>' :: later ++ ['>'] = (inside ++ ['>']) ++ (later ++ ['>']) := by
        simp
      rw [hsplit, h.append_of_closed (isClosed_concat inside), List.getLast?_append,
        ih _ hshorter later rfl]
      rfl
    · rcases h.closed_cases hcs with hkept | ⟨before, word, out, hitem, -, hrun⟩
      · rw [hkept, List.getLast?_concat]
      · rw [hrun, List.getLast?_append, hout word out hitem]
        rfl

end Rewrites

end WidgetSchema.Text
