-- What the filter of an overlay does. Each edit is asked for on its own, so those that pass and
-- those that do not keep their order. It is asked for by its place in normal form, in which no
-- position stands in brackets and no segment is empty: a dot is put in front of every position,
-- and as only dots are taken away beside dots, no other position comes into brackets. So a place
-- in normal form stays as it is, and what has passed passes again.
import WidgetSchema.Proofs.Overlay.Replayed
import WidgetSchema.Proofs.Text.Within
namespace WidgetSchema.Overlay

variable {cs rest word digits : List Char} {c : Char}

/-! ## Positions in brackets -/

/-- Digits in brackets. -/
def bracketed (digits : List Char) : List Char := '[' :: (digits ++ [']'])

/-- A text with a position in brackets somewhere in it. -/
def HoldsBracketed (cs : List Char) : Prop :=
  ∃ digits, (Path.index? (String.ofList digits)).isSome = true ∧ bracketed digits <:+: cs

/-- The digits of a position are no marks. -/
theorem ne_of_mem_position (mark : Char) (hmark : Text.isAsciiDigit mark = false)
    (h : (Path.index? (String.ofList digits)).isSome = true) : ∀ c ∈ digits, c ≠ mark := by
  obtain ⟨i, hi⟩ := Option.isSome_iff_exists.1 h
  have hdigits := (Path.index?_eq_some_iff.1 hi).2.1
  rw [String.toList_ofList] at hdigits
  rintro c hc rfl
  rw [hdigits c hc] at hmark
  cases hmark

theorem dot_notMem_bracketed (h : (Path.index? (String.ofList digits)).isSome = true) :
    '.' ∉ bracketed digits := by
  have hplain := ne_of_mem_position '.' (by decide) h
  simp only [bracketed, List.mem_cons, List.mem_append, List.not_mem_nil, or_false, not_or]
  exact ⟨by decide, fun hmem => hplain _ hmem rfl, by decide⟩

theorem eq_append_of_dropWhile {x : Char} {after : List Char}
    (h : rest.dropWhile (· ≠ ']') = x :: after) :
    rest = rest.takeWhile (· ≠ ']') ++ ']' :: after := by
  have hx := List.head?_dropWhile_not (· ≠ ']') rest
  rw [h] at hx
  obtain rfl : x = ']' := by simpa using hx
  rw [← h, List.takeWhile_append_dropWhile]

/-- A text that begins with a position in brackets goes on behind it. Of any other text the first
character is taken over. -/
theorem dotted_cons (c : Char) (rest : List Char) :
    (∃ digits after, (Path.index? (String.ofList digits)).isSome = true ∧
      c :: rest = bracketed digits ++ after ∧
      dotted (c :: rest) = '.' :: (digits ++ dotted after)) ∨
    ((∀ digits, (Path.index? (String.ofList digits)).isSome = true →
        ¬ bracketed digits <+: c :: rest) ∧
      dotted (c :: rest) = c :: dotted rest) := by
  -- The digits that a closing bracket ends are those up to the first one.
  have hfirst : ∀ {digits rest : List Char}, (Path.index? (String.ofList digits)).isSome = true →
      bracketed digits <+: '[' :: rest → ∃ after, rest.takeWhile (· ≠ ']') = digits ∧
        rest.dropWhile (· ≠ ']') = ']' :: after := by
    rintro digits rest hindex ⟨after, hafter⟩
    have hrest : digits ++ [']'] ++ after = rest := (List.cons.inj hafter).2
    have hplain : ∀ c ∈ digits, decide (c ≠ ']') = true := fun c hc =>
      decide_eq_true (ne_of_mem_position ']' (by decide) hindex c hc)
    refine ⟨after, ?_, ?_⟩
    · rw [← hrest, List.append_assoc, List.takeWhile_append_of_pos hplain]
      simp
    · rw [← hrest, List.append_assoc, List.dropWhile_append_of_pos hplain]
      simp
  by_cases hc : c = '['
  · subst hc
    rw [dotted]
    split
    · rename_i x after hrest
      split
      · rename_i hindex
        refine .inl ⟨_, after, hindex, ?_, rfl⟩
        conv_lhs => rw [eq_append_of_dropWhile hrest]
        simp [bracketed]
      · rename_i hindex
        refine .inr ⟨fun digits hdigits hp => hindex ?_, rfl⟩
        obtain ⟨after, htake, -⟩ := hfirst hdigits hp
        rwa [htake]
    · rename_i hrest
      refine .inr ⟨fun digits hdigits hp => ?_, rfl⟩
      obtain ⟨after, -, hdrop⟩ := hfirst hdigits hp
      rw [hrest] at hdrop
      cases hdrop
  · refine .inr ⟨fun digits _ hp => hc (List.cons_prefix_cons.1 hp).1.symm, ?_⟩
    rw [dotted]
    exact hc

/-- A text without positions in brackets stays. -/
theorem dotted_eq_self (h : ¬ HoldsBracketed cs) : dotted cs = cs := by
  induction cs with
  | nil => rw [dotted]
  | cons c rest ih =>
    rcases dotted_cons c rest with ⟨digits, after, hindex, heq, -⟩ | ⟨-, heq⟩
    · exact absurd ⟨digits, hindex, heq ▸ (List.prefix_append _ _).isInfix⟩ h
    · have hrest : ¬ HoldsBracketed rest := by
        rintro ⟨digits, hindex, hin⟩
        exact h ⟨digits, hindex, List.infix_cons hin⟩
      rw [heq, ih hrest]

/-- What is written without dots at the start stood there before. -/
theorem prefix_of_prefix_dotted (hdot : '.' ∉ word) (h : word <+: dotted cs) : word <+: cs := by
  induction word generalizing cs with
  | nil => exact List.nil_prefix
  | cons c word ih =>
    rw [List.mem_cons, not_or] at hdot
    rcases cs with _ | ⟨d, rest⟩
    · rw [dotted] at h
      exact h
    · rcases dotted_cons d rest with ⟨digits, after, -, -, heq⟩ | ⟨-, heq⟩
      · rw [heq] at h
        exact absurd (List.cons_prefix_cons.1 h).1.symm hdot.1
      · rw [heq] at h
        obtain ⟨rfl, hrest⟩ := List.cons_prefix_cons.1 h
        exact List.cons_prefix_cons.2 ⟨rfl, ih hdot.2 hrest⟩

/-- No position is left in brackets, and none comes into brackets. -/
theorem not_holdsBracketed_dotted (cs : List Char) : ¬ HoldsBracketed (dotted cs) := by
  rintro ⟨found, hfound, hin⟩
  have hdot := dot_notMem_bracketed hfound
  induction hn : cs.length using Nat.strong_induction_on generalizing cs with
  | _ n ih =>
    rcases cs with _ | ⟨c, rest⟩
    · rw [dotted] at hin
      cases List.infix_nil.1 hin
    · rcases dotted_cons c rest with ⟨digits, after, hindex, hcs, heq⟩ | ⟨hnone, heq⟩
      · have hopen : '[' ∉ '.' :: digits := by
          have hplain := ne_of_mem_position '[' (by decide) hindex
          rw [List.mem_cons, not_or]
          exact ⟨by decide, fun hmem => hplain _ hmem rfl⟩
        rw [heq, ← List.cons_append] at hin
        refine ih after.length ?_ after (Text.infix_of_infix_append hopen hin) rfl
        have hlength := congrArg List.length hcs
        simp only [bracketed, List.length_cons, List.length_append] at hlength hn
        omega
      · rw [heq] at hin
        rcases List.infix_cons_iff.1 hin with hp | hin
        · exact hnone found hfound (prefix_of_prefix_dotted hdot (heq ▸ hp))
        · refine ih rest.length ?_ rest hin rfl
          rw [← hn]
          exact Nat.lt_succ_self _

/-! ## Places in normal form -/

/-- Joining the segments brings no position into brackets. -/
theorem not_holdsBracketed_normalPath (raw : String) :
    ¬ HoldsBracketed (normalPath raw).toList := by
  rintro ⟨digits, hindex, hin⟩
  refine not_holdsBracketed_dotted raw.toList ⟨digits, hindex, ?_⟩
  have hdot : '.' ∉ bracketed digits := dot_notMem_bracketed hindex
  rw [normalPath_eq, Path.text, Text.join, String.toList_intercalate] at hin
  obtain ⟨part, hpart, hin⟩ := Text.infix_of_infix_intercalate hdot (List.cons_ne_nil _ _) hin
  obtain ⟨s, hs, rfl⟩ := List.mem_map.1 hpart
  have hwhole := Text.infix_of_mem_split (List.mem_filter.1 hs).1
  rw [String.toList_ofList] at hwhole
  exact hin.trans hwhole

theorem filter_split (s : String) :
    (Text.split '.' s).filter (· ≠ "") = (Path.ofText s).filter (· ≠ "") := by
  unfold Path.ofText
  split
  · rename_i hempty
    rw [hempty]
    rfl
  · rfl

/-- A place in normal form stays as it is. -/
theorem normalPath_normalPath (raw : String) : normalPath (normalPath raw) = normalPath raw := by
  have hdotted := dotted_eq_self (not_holdsBracketed_normalPath raw)
  have hparts : solidParts (normalPath raw) = solidParts raw := by
    rw [solidParts, hdotted, String.ofList_toList, filter_split, ofText_normalPath]
    exact List.filter_eq_self.2 fun s hs => decide_eq_true (solid_of_mem_solidParts hs).1
  rw [normalPath_eq, hparts, ← normalPath_eq]

/-! ## The filter -/

variable {allow : Allowlist} {o : OverlayOp}

/-- The edit with its place in normal form. -/
def normalized (o : OverlayOp) : OverlayOp := { o with path := normalPath o.path }

def isAllowed (allow : Allowlist) (o : OverlayOp) : Bool := (allowedPath? allow o).isSome

/-- A list made of two lists whose items keep their order. -/
inductive Interleaved {α : Type} : List α → List α → List α → Prop
  | nil : Interleaved [] [] []
  | left {x : α} {xs ys zs : List α} : Interleaved xs ys zs → Interleaved (x :: xs) ys (x :: zs)
  | right {y : α} {xs ys zs : List α} : Interleaved xs ys zs → Interleaved xs (y :: ys) (y :: zs)

/-- What passes a test and what does not make up the list. -/
theorem interleaved_filter {α : Type} (p : α → Bool) (zs : List α) :
    Interleaved (zs.filter p) (zs.filter fun z => !p z) zs := by
  induction zs with
  | nil => exact .nil
  | cons z zs ih =>
    by_cases hz : p z = true
    · rw [List.filter_cons_of_pos hz, List.filter_cons_of_neg (by simpa using hz)]
      exact .left ih
    · rw [List.filter_cons_of_neg hz, List.filter_cons_of_pos (by simpa using hz)]
      exact .right ih

theorem refused_eq (allow : Allowlist) (ops : List OverlayOp) :
    refused allow ops = ops.filter fun o => !isAllowed allow o := by
  rw [refused]
  refine List.filter_congr fun o _ => ?_
  rw [isAllowed, Option.not_isSome]

theorem permitted_eq (allow : Allowlist) (ops : List OverlayOp) :
    permitted allow ops = (ops.filter (isAllowed allow)).map normalized := by
  unfold permitted
  induction ops with
  | nil => rfl
  | cons o ops ih =>
    rcases hpath : allowedPath? allow o with _ | path
    · have ho : ¬ isAllowed allow o = true := by simp [isAllowed, hpath]
      rw [List.filterMap_cons_none (by rw [hpath]; rfl), List.filter_cons_of_neg ho, ih]
    · have ho : isAllowed allow o = true := by simp [isAllowed, hpath]
      obtain rfl := (allowedPath?_eq_some_iff.1 hpath).1
      rw [List.filterMap_cons_some (b := normalized o) (by rw [hpath]; rfl),
        List.filter_cons_of_pos ho, List.map_cons, ih]

theorem isAllowed_normalized (allow : Allowlist) (o : OverlayOp) :
    isAllowed allow (normalized o) = isAllowed allow o := by
  simp only [isAllowed, allowedPath?, normalized, normalPath_normalPath]

theorem normalized_normalized (o : OverlayOp) : normalized (normalized o) = normalized o := by
  simp only [normalized, normalPath_normalPath]

/-- The filter takes a list of edits apart: what it keeps, as it was given, and what it refuses make
up the list again. What it gives are the kept edits with their places in normal form, and the
normal form of a place is its own. So filtered once more all of them are kept as they are. -/
theorem edits_are_taken_apart_once (allow : Allowlist) (ops : List OverlayOp)
    (raw : String) :
    (Interleaved (ops.filter (isAllowed allow)) (refused allow ops) ops ∧
      permitted allow ops = (ops.filter (isAllowed allow)).map normalized) ∧
    normalPath (normalPath raw) = normalPath raw ∧
    refused allow (permitted allow ops) = [] ∧
    permitted allow (permitted allow ops) = permitted allow ops := by
  have hagain : ∀ o ∈ permitted allow ops, isAllowed allow o = true ∧ normalized o = o := by
    rw [permitted_eq]
    intro o ho
    obtain ⟨given, hgiven, rfl⟩ := List.mem_map.1 ho
    exact ⟨(isAllowed_normalized allow given).trans (List.mem_filter.1 hgiven).2,
      normalized_normalized given⟩
  refine ⟨⟨?_, permitted_eq allow ops⟩, normalPath_normalPath raw, ?_, ?_⟩
  · rw [refused_eq]
    exact interleaved_filter (isAllowed allow) ops
  · rw [refused_eq, List.filter_eq_nil_iff]
    intro o ho
    rw [(hagain o ho).1]
    exact Bool.false_ne_true
  · rw [permitted_eq allow (permitted allow ops),
      List.filter_eq_self.2 fun o ho => (hagain o ho).1]
    exact (List.map_congr_left fun o ho => (hagain o ho).2).trans (List.map_id' _)

end WidgetSchema.Overlay
