-- Which control governs a place. The search keeps the best match so far and exchanges it only for
-- a better one, so it ends with the first of the best matches. How good these are does not hang on
-- the order of the controls, so the order decides only between matches of one standing.
import Mathlib.Data.List.MinMax
import Mathlib.Data.Prod.Lex
import WidgetSchema.Control.Pattern
namespace WidgetSchema.Control

/-! ## Standing -/

/-- What a control is ranked by: its score, and at equal scores the segments of its path that stand
for themselves. -/
def standing (c : Control) : Nat ×ₗ Nat := toLex (c.score, Pattern.literalCount c.path)

theorem standing_inj {a b : Control} : a.standing = b.standing ↔
    a.score = b.score ∧ Pattern.literalCount a.path = Pattern.literalCount b.path := by
  rw [standing, standing, toLex_inj, Prod.mk.injEq]

theorem outranks_iff {a b : Control} : a.outranks b = true ↔ b.standing < a.standing := by
  simp only [outranks, standing, Prod.Lex.toLex_lt_toLex, Bool.or_eq_true, Bool.and_eq_true,
    decide_eq_true_eq, beq_iff_eq, eq_comm (a := a.score)]

theorem governing?_eq_argmax (controls : List Control) (place : String) :
    governing? controls place = (controls.filter (·.governs place)).argmax standing := by
  have hpick : pick = List.argAux fun c best => best.standing < c.standing := by
    funext best c
    cases best with
    | none => rfl
    | some best => exact if_congr outranks_iff rfl rfl
  rw [governing?, hpick, List.argmax]

/-! ## The first of the best -/

/-- The first largest element comes behind smaller ones only, and no larger one comes behind it. -/
theorem argmax_eq_some_iff_split {α β : Type} [DecidableEq α] [LinearOrder β] {f : α → β}
    {l : List α} {m : α} : l.argmax f = some m ↔ ∃ before after, l = before ++ m :: after ∧
      (∀ a ∈ before, f a < f m) ∧ ∀ a ∈ after, f a ≤ f m := by
  rw [List.argmax_eq_some_iff]
  constructor
  · rintro ⟨hm, hle, hfirst⟩
    obtain ⟨before, after, rfl, hnew⟩ := List.eq_append_cons_of_mem hm
    refine ⟨before, after, rfl, fun a ha => lt_of_not_ge fun hge => ?_, fun a ha => ?_⟩
    · have hearlier := hfirst a (List.mem_append_left _ ha) hge
      rw [List.idxOf_append_of_notMem hnew, List.idxOf_append_of_mem ha] at hearlier
      have hwithin := List.idxOf_lt_length_of_mem ha
      omega
    · exact hle a (List.mem_append_right _ (List.mem_cons_of_mem _ ha))
  · rintro ⟨before, after, rfl, hbefore, hafter⟩
    have hle : ∀ a ∈ before ++ m :: after, f a ≤ f m := by
      simp only [List.forall_mem_append, List.forall_mem_cons]
      exact ⟨fun a ha => (hbefore a ha).le, le_rfl, hafter⟩
    refine ⟨by simp, hle, fun a _ hge => ?_⟩
    have hm : m ∉ before := fun hmem => (hbefore m hmem).false
    have ha : a ∉ before := fun hmem => (hbefore a hmem).not_ge hge
    rw [List.idxOf_append_of_notMem hm, List.idxOf_append_of_notMem ha, List.idxOf_cons_self]
    exact Nat.add_le_add_left (Nat.zero_le _) _

/-- A control that matches a place. Every match before it is of lower standing, and none behind it
is of higher. -/
structure IsFirstOfBest (controls : List Control) (place : String) (c : Control) : Prop where
  governs : c.governs place = true
  split : ∃ before after, controls = before ++ c :: after ∧
    (∀ d ∈ before, d.governs place = true → d.standing < c.standing) ∧
    ∀ d ∈ after, d.governs place = true → d.standing ≤ c.standing

theorem governing?_eq_some_iff {controls : List Control} {place : String} {c : Control} :
    governing? controls place = some c ↔ IsFirstOfBest controls place c := by
  rw [governing?_eq_argmax, argmax_eq_some_iff_split]
  constructor
  · rintro ⟨before, after, hsplit, hbefore, hafter⟩
    obtain ⟨front, back, rfl, rfl, hback⟩ := List.filter_eq_append_iff.1 hsplit
    obtain ⟨others, behind, rfl, hothers, hc, rfl⟩ := List.filter_eq_cons_iff.1 hback
    refine ⟨hc, front ++ others, behind, by simp, fun d hd hgoverns => ?_, fun d hd hgoverns => ?_⟩
    · rcases List.mem_append.1 hd with hd | hd
      · exact hbefore d (List.mem_filter.2 ⟨hd, hgoverns⟩)
      · exact absurd hgoverns (hothers d hd)
    · exact hafter d (List.mem_filter.2 ⟨hd, hgoverns⟩)
  · rintro ⟨hc, before, after, rfl, hbefore, hafter⟩
    refine ⟨before.filter (·.governs place), after.filter (·.governs place), ?_, ?_, ?_⟩
    · rw [List.filter_append, List.filter_cons, if_pos hc]
    · exact fun d hd => hbefore d (List.mem_filter.1 hd).1 (List.mem_filter.1 hd).2
    · exact fun d hd => hafter d (List.mem_filter.1 hd).1 (List.mem_filter.1 hd).2

theorem isSome_governing?_iff {controls : List Control} {place : String} :
    (governing? controls place).isSome = true ↔ ∃ c ∈ controls, c.governs place = true := by
  rw [governing?_eq_argmax, Option.isSome_iff_ne_none, Ne, List.argmax_eq_none,
    List.filter_eq_nil_iff]
  simp only [not_forall, not_not, exists_prop]

/-! ## Another order -/

theorem IsFirstOfBest.mem {controls : List Control} {place : String} {c : Control}
    (h : IsFirstOfBest controls place c) : c ∈ controls := by
  obtain ⟨before, after, rfl, -⟩ := h.split
  exact List.mem_append_right _ List.mem_cons_self

/-- The governing control is one of the list, and it governs the place. -/
theorem governs_of_governing? {controls : List Control} {place : String} {c : Control}
    (h : governing? controls place = some c) : c ∈ controls ∧ c.governs place = true :=
  have hfirst := governing?_eq_some_iff.1 h
  ⟨hfirst.mem, hfirst.governs⟩

/-- The best match stands at least as high as every match. -/
theorem IsFirstOfBest.standing_le {controls : List Control} {place : String} {c d : Control}
    (h : IsFirstOfBest controls place c) (hd : d ∈ controls) (hgoverns : d.governs place = true) :
    d.standing ≤ c.standing := by
  obtain ⟨before, after, rfl, hbefore, hafter⟩ := h.split
  rcases List.mem_append.1 hd with hd | hd
  · exact (hbefore d hd hgoverns).le
  · rcases List.mem_cons.1 hd with rfl | hd
    · exact le_rfl
    · exact hafter d hd hgoverns

/-- In another order the best match is of the same standing, if there is one at all. -/
theorem standing_governing?_of_perm {controls others : List Control} (h : controls.Perm others)
    (place : String) :
    (governing? others place).map standing = (governing? controls place).map standing := by
  have hsome : (governing? others place).isSome = (governing? controls place).isSome := by
    rw [Bool.eq_iff_iff, isSome_governing?_iff, isSome_governing?_iff]
    simp only [h.mem_iff]
  rcases hc : governing? controls place with _ | c <;>
    rcases hd : governing? others place with _ | d
  · rfl
  · rw [hc, hd] at hsome
    cases hsome
  · rw [hc, hd] at hsome
    cases hsome
  · have hfirst := governing?_eq_some_iff.1 hc
    have hother := governing?_eq_some_iff.1 hd
    have hle := hfirst.standing_le (h.mem_iff.2 hother.mem) hother.governs
    have hge := hother.standing_le (h.mem_iff.1 hfirst.mem) hfirst.governs
    rw [Option.map_some, Option.map_some, le_antisymm hle hge]

/-- A place is governed exactly if a control with a path that is not blank matches it, and then by
the first of the matches of highest score and, among these, of the most segments that stand for
themselves. In another order it is governed by a control of the same score and as many such
segments, or in both orders by none. -/
theorem a_place_is_governed_by_the_first_of_the_best (controls : List Control) (place : String) :
    ((governing? controls place).isSome = true ↔ ∃ c ∈ controls,
      Text.isBlankText c.path = false ∧ Pattern.accepts c.path place = true) ∧
    (∀ c, governing? controls place = some c ↔ IsFirstOfBest controls place c) ∧
    ∀ others, controls.Perm others →
      (governing? others place).isSome = (governing? controls place).isSome ∧
      ∀ c d, governing? controls place = some c → governing? others place = some d →
        d.score = c.score ∧ Pattern.literalCount d.path = Pattern.literalCount c.path := by
  refine ⟨?_, fun c => governing?_eq_some_iff, fun others h => ?_⟩
  · rw [isSome_governing?_iff]
    simp only [governs, isBound, Bool.and_eq_true, Bool.not_eq_true']
  · have hsame := standing_governing?_of_perm h place
    refine ⟨?_, fun c d hc hd => ?_⟩
    · simpa only [Option.isSome_map] using congrArg Option.isSome hsame
    · rw [hc, hd, Option.map_some, Option.map_some] at hsame
      exact standing_inj.1 (Option.some.inj hsame)

/-! ## The title of an item -/

/-- Four controls that match the titles of items: a bare binding, a text field for every member, and
two panels with a text field for the title. -/
def titleControls : List Control :=
  [{ panelId := "content", type := "field", path := "items.__idx__.title", kind := .string },
    { panelId := "content", type := "textfield", path := "items.__idx__.__member__",
      kind := .string },
    { panelId := "content", type := "textfield", path := "items.__idx__.title", kind := .string },
    { panelId := "settings", type := "textfield", path := "items.__idx__.title", kind := .string }]

/-- The first of the two panels has the title, whichever that is. -/
theorem the_title_is_governed_by_the_first_panel :
    titleControls.Perm titleControls.reverse ∧
    ∃ c d, governing? titleControls "items.3.title" = some c ∧ c.panelId = "content" ∧
      IsFirstOfBest titleControls "items.3.title" c ∧
      governing? titleControls.reverse "items.3.title" = some d ∧ d.panelId = "settings" ∧
      d.score = c.score ∧ Pattern.literalCount d.path = Pattern.literalCount c.path := by
  have hperm : titleControls.Perm titleControls.reverse := titleControls.reverse_perm.symm
  have hc : governing? titleControls "items.3.title" = titleControls[2]? := by decide +kernel
  have hd : governing? titleControls.reverse "items.3.title" = titleControls[3]? := by
    decide +kernel
  obtain ⟨-, hbest, horder⟩ := a_place_is_governed_by_the_first_of_the_best titleControls
    "items.3.title"
  exact ⟨hperm, _, _, hc, rfl, (hbest _).1 hc, hd, rfl, (horder _ hperm).2 _ _ hc hd⟩

end WidgetSchema.Control
