-- One batch under the two modes and the two policies. A batch that is checked after each edit
-- is a sequence of batches of one edit. The settings only ever refuse: what the strict mode
-- reads, the loose one reads the same way, and a check leaves the tree as it is.
import WidgetSchema.Proofs.Edit.Accepted
namespace WidgetSchema

/-! ## The two modes -/

/-- The mode is looked at for truth values only. -/
theorem Control.coerce_of_kind_ne {c : Control} (hk : c.kind ≠ .boolean) (mode mode' : Mode)
    (raw : Node) : c.coerce mode raw = c.coerce mode' raw := by
  unfold coerce
  cases hc : c.kind with
  | boolean => exact absurd hc hk
  | _ => cases raw <;> rfl

/-- What the strict mode reads, every mode reads alike. -/
theorem Control.coerce_of_strict {c : Control} {raw : Node} {v : ControlValue}
    (h : c.coerce .strict raw = .ok v) (mode : Mode) : c.coerce mode raw = .ok v := by
  by_cases hk : c.kind = .boolean
  · unfold coerce at h ⊢
    rw [hk] at h ⊢
    cases raw with
    | bool b =>
      have hv : v = .bool b := (Except.ok.inj h).symm
      cases mode <;> rw [hv] <;> rfl
    | _ => simp [Node.bool?] at h
  · rw [coerce_of_kind_ne hk mode .strict]
    exact h

namespace Editor

/-- The same controls under another mode and another policy. -/
def under (e : Editor) (mode : Mode) (policy : Policy) : Editor := { e with mode, policy }

variable {e : Editor} {t next op : Node} {mode mode' : Mode} {policy policy' : Policy}

theorem newItem_of_strict {path : String} {index : Nat} {raw item : Node}
    (h : (e.under .strict policy).newItem path index raw = .ok item) :
    (e.under mode policy').newItem path index raw = .ok item := by
  unfold newItem at h ⊢
  simp only [under] at h ⊢
  split at h
  · split at h
    · rename_i v hv
      rw [Control.coerce_of_strict hv mode]
      exact h
    · cases h
  · exact h

theorem change_of_strict (h : (e.under .strict policy).change t op = .ok next) :
    (e.under mode policy').change t op = .ok next := by
  obtain ⟨name, path, c, ho, hname, hpath, hclean, hc, hperform⟩ := change_eq_ok_iff.1 h
  refine change_eq_ok_iff.2 ⟨name, path, c, ho, hname, hpath, hclean, hc, ?_⟩
  unfold perform at hperform ⊢
  split at hperform
  · obtain ⟨raw, v, hraw, hgap, hv, hn, hids, hnext⟩ := setValue_eq_ok_iff.1 hperform
    exact setValue_eq_ok_iff.2
      ⟨raw, v, hraw, hgap, Control.coerce_of_strict hv mode, hn, hids, hnext⟩
  · obtain ⟨index, xs, raw, item, hk, hi, hxs, hle, hraw, hitem, hid, hnext⟩ :=
      insertItem_eq_ok_iff.1 hperform
    exact insertItem_eq_ok_iff.2
      ⟨index, xs, raw, item, hk, hi, hxs, hle, hraw, newItem_of_strict hitem, hid, hnext⟩
  · exact hperform
  · exact hperform
  · cases hperform

/-- The checks in between only refuse: without them a run comes to the same tree. -/
theorem run_of_strict {ops : List Node} {index : Nat} {final : Node}
    (h : (e.under .strict .eachOp).run index t ops = .ok final) :
    (e.under mode policy).run index t ops = .ok final := by
  induction ops generalizing index t with
  | nil => exact h
  | cons op ops ih =>
    obtain ⟨u, hstep, hrest⟩ := run_cons_eq_ok_iff.1 h
    obtain ⟨hchange, hvalid⟩ := step_eq_ok_iff.1 hstep
    have hstep' : (e.under mode policy).step index t op = .ok u :=
      step_eq_ok_iff.2 ⟨change_of_strict hchange, fun _ => hvalid rfl⟩
    exact run_cons_eq_ok_iff.2 ⟨u, hstep', ih hrest⟩

theorem apply_of_strict {data final : Node} {ops : List Node}
    (h : (e.under .strict .eachOp).apply data ops = .ok final) :
    (e.under mode policy).apply data ops = .ok final := by
  have hne := (apply_eq_ok_iff.1 h).1
  obtain ⟨hrun, hvalid⟩ := run_of_apply h
  exact apply_eq_ok_iff.2 ⟨hne, run_of_strict hrun, fun _ => hvalid⟩

/-! ## The trees in between -/

/-- The trees that a batch passes through, one after each edit, up to the first edit that
fails. -/
def trees (e : Editor) : Node → List Node → List Node
  | _, [] => []
  | t, op :: ops =>
    match e.change t op with
    | .ok next => next :: e.trees next ops
    | .error _ => []

theorem trees_cons {ops : List Node} (h : e.change t op = .ok next) :
    e.trees t (op :: ops) = next :: e.trees next ops := by
  rw [trees, h]

/-- A run through valid trees passes the check after each edit. -/
theorem run_of_valid_trees {ops : List Node} {index : Nat} {final : Node}
    (h : (e.under mode .endOfBatch).run index t ops = .ok final)
    (hvalid : ∀ u ∈ (e.under mode .endOfBatch).trees t ops, IsValid u e.controls) :
    (e.under mode .eachOp).run index t ops = .ok final := by
  induction ops generalizing index t with
  | nil => exact h
  | cons op ops ih =>
    obtain ⟨u, hstep, hrest⟩ := run_cons_eq_ok_iff.1 h
    have hchange := (step_eq_ok_iff.1 hstep).1
    rw [trees_cons hchange] at hvalid
    have hu : IsValid u e.controls := hvalid u List.mem_cons_self
    have hstep' : (e.under mode .eachOp).step index t op = .ok u :=
      step_eq_ok_iff.2 ⟨hchange, fun _ => hu⟩
    exact run_cons_eq_ok_iff.2
      ⟨u, hstep', ih hrest fun w hw => hvalid w (List.mem_cons_of_mem _ hw)⟩

theorem apply_of_valid_trees {data final : Node} {ops : List Node}
    (h : (e.under mode .endOfBatch).apply data ops = .ok final)
    (hvalid : ∀ u ∈ (e.under mode .endOfBatch).trees data ops, IsValid u e.controls) :
    (e.under mode .eachOp).apply data ops = .ok final := by
  obtain ⟨hne, hrun, _⟩ := apply_eq_ok_iff.1 h
  refine apply_eq_ok_iff.2 ⟨hne, run_of_valid_trees hrun hvalid, ?_⟩
  rintro ⟨⟩

/-! ## One edit at a time -/

/-- The edits as batches of one edit, each on the tree that the one before it left. The errors
of the first batch that is refused are given with its position. -/
def oneByOne (e : Editor) : (index : Nat) → Node → List Node → Outcome
  | _, t, [] => .ok t
  | index, t, op :: ops =>
    match e.apply t [op] with
    | .ok next => e.oneByOne (index + 1) next ops
    | .error rejections => .error (rejections.map fun r => { r with opIndex := index })

/-- The position of an edit stands in its errors, and nowhere else. -/
theorem step_eq_step_zero (e : Editor) (index : Nat) (t op : Node) :
    e.step index t op = match e.step 0 t op with
      | .ok next => .ok next
      | .error rejections => .error (rejections.map fun r => { r with opIndex := index }) := by
  unfold step
  rcases e.change t op with ⟨path, err⟩ | next
  · rfl
  · rcases e.policy with _ | _
    · rcases hv : violations next e.controls with _ | ⟨v, vs⟩
      · simp [hv]
      · simp [hv]
    · rfl

theorem opIndex_of_step {index : Nat} {rejections : List Rejection}
    (h : e.step index t op = .error rejections) : ∀ r ∈ rejections, r.opIndex = index := by
  rw [step_eq_step_zero] at h
  split at h
  · cases h
  · rw [← Except.error.inj h]
    intro r hr
    obtain ⟨_, _, rfl⟩ := List.mem_map.1 hr
    rfl

/-- A batch of one edit is the step of that edit. -/
theorem apply_singleton (hpolicy : e.policy = .eachOp) (t op : Node) :
    e.apply t [op] = e.step 0 t op := by
  unfold apply
  rw [List.isEmpty_cons, if_neg Bool.false_ne_true, run]
  rcases e.step 0 t op with rejections | next
  · rfl
  · simp [run, hpolicy]

theorem run_eq_oneByOne (hpolicy : e.policy = .eachOp) (index : Nat) (t : Node)
    (ops : List Node) : e.run index t ops = e.oneByOne index t ops := by
  induction ops generalizing index t with
  | nil => rfl
  | cons op ops ih =>
    rw [run, oneByOne, apply_singleton hpolicy, step_eq_step_zero]
    rcases e.step 0 t op with rejections | next
    · rfl
    · exact ih (index + 1) next

theorem apply_eq_oneByOne (hpolicy : e.policy = .eachOp) (data : Node) {ops : List Node}
    (hne : ops ≠ []) : e.apply data ops = e.oneByOne 0 data ops := by
  unfold apply
  rw [if_neg (by simpa using hne), run_eq_oneByOne hpolicy]
  rcases e.oneByOne 0 data ops with rejections | final
  · rfl
  · simp [hpolicy]

/-! ## All settings -/

/-- A batch that is checked after each edit is its edits one at a time, and a batch of one edit
blames the edit at position zero. What is accepted in the strict mode with a check after each
edit is accepted with the same tree under all settings, and a batch that is checked at its end
is also accepted with checks in between if the trees it passes through are valid. -/
theorem the_settings_agree_on_a_batch (e : Editor) (data : Node) {ops : List Node}
    (hne : ops ≠ []) :
    (∀ mode, (e.under mode .eachOp).apply data ops = (e.under mode .eachOp).oneByOne 0 data ops) ∧
      (∀ mode t op rejections, (e.under mode .eachOp).apply t [op] = .error rejections →
        ∀ r ∈ rejections, r.opIndex = 0) ∧
      (∀ final, (e.under .strict .eachOp).apply data ops = .ok final →
        ∀ mode policy, (e.under mode policy).apply data ops = .ok final) ∧
      ∀ mode final, (e.under mode .endOfBatch).apply data ops = .ok final →
        (∀ t ∈ (e.under mode .endOfBatch).trees data ops, IsValid t e.controls) →
        (e.under mode .eachOp).apply data ops = .ok final := by
  refine ⟨fun mode => apply_eq_oneByOne rfl data hne, ?_, ?_, ?_⟩
  · intro mode t op rejections h
    rw [apply_singleton rfl] at h
    exact opIndex_of_step h
  · intro final h mode policy
    exact apply_of_strict h
  · intro mode final h hvalid
    exact apply_of_valid_trees h hvalid

/-- Two edits of the second answer, one after the other. -/
def textOps : List Node := [
  .object [("op", .string "set"), ("path", .string "faqs.1.answer.text"),
    ("value", .string "Perhaps")],
  .object [("op", .string "set"), ("path", .string "faqs.1.answer.text"),
    ("value", .string "Maybe")]]

/-- The last edit of the second answer counts under all settings. -/
theorem the_second_answer_under_all_settings :
    textOps ≠ [] ∧
      (answers.under .strict .eachOp).apply (answered "No") textOps = .ok (answered "Maybe") ∧
      (answers.under .strict .eachOp).oneByOne 0 (answered "No") textOps =
        .ok (answered "Maybe") ∧
      (answers.under .permissive .endOfBatch).apply (answered "No") textOps =
        .ok (answered "Maybe") ∧
      (∀ t ∈ (answers.under .permissive .endOfBatch).trees (answered "No") textOps,
        IsValid t answers.controls) ∧
      (answers.under .permissive .eachOp).apply (answered "No") textOps =
        .ok (answered "Maybe") := by
  have hne : textOps ≠ [] := List.cons_ne_nil _ _
  have hstrict : (answers.under .strict .eachOp).apply (answered "No") textOps =
      .ok (answered "Maybe") := rfl
  have htrees : (answers.under .permissive .endOfBatch).trees (answered "No") textOps =
      [answered "Perhaps", answered "Maybe"] := rfl
  have hvalid : ∀ t ∈ (answers.under .permissive .endOfBatch).trees (answered "No") textOps,
      IsValid t answers.controls := by
    rw [htrees]
    intro t ht
    simp only [List.mem_cons, List.not_mem_nil, or_false] at ht
    rcases ht with rfl | rfl <;> rfl
  obtain ⟨hsingle, _, hall, hbetween⟩ :=
    the_settings_agree_on_a_batch answers (answered "No") hne
  have hend := hall _ hstrict .permissive .endOfBatch
  exact ⟨hne, hstrict, (hsingle .strict).symm.trans hstrict, hend, hvalid,
    hbetween _ _ hend hvalid⟩

end Editor

end WidgetSchema
