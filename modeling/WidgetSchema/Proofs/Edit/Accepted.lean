-- What an accepted edit is. Each edit that goes through was checked in the same order and ends
-- in one write at its place; a batch that goes through is a run of such writes.
import WidgetSchema.Edit.Editor
import WidgetSchema.Proofs.Checked
import WidgetSchema.Proofs.Control.Governing
import WidgetSchema.Proofs.Node.Place
namespace WidgetSchema

namespace Editor

/-! ## Single edits -/

theorem items_eq_ok_iff {t : Node} {path : String} {xs : List Node} :
    items t path = .ok xs ↔ t.getAt (Path.ofText path) = some (.array xs) := by
  unfold items
  rcases t.getAt (Path.ofText path) with _ | v
  · simp
  · cases v <;> simp [Node.array?]

theorem setValue_eq_ok_iff {e : Editor} {t next : Node} {path : String} {c : Control}
    {value : Option Node} :
    e.setValue t path c value = .ok next ↔
      ∃ raw v, value = some raw ∧ t.gapAt? (Path.ofText path) = none ∧
        c.coerce e.mode raw = .ok v ∧ numberFault? c v = none ∧
        c.idsFault? (storedValue t path v) = none ∧
        next = t.setAt (Path.ofText path) (storedValue t path v) := by
  unfold setValue
  rcases value with _ | raw
  · simp
  · rcases hgap : t.gapAt? (Path.ofText path) with _ | ⟨i, n⟩
    · rcases hv : c.coerce e.mode raw with err | v
      · simp [hv]
      · rcases hn : numberFault? c v with _ | fault
        · rcases hids : c.idsFault? (storedValue t path v) with _ | fault
          · simp [hv, hn, hids, eq_comm]
          · simp [hv, hn, hids]
        · simp [hv, hn]
    · simp

theorem requireArray_eq_ok_iff {c : Control} {u : Unit} :
    requireArray c = .ok u ↔ c.kind = .array := by
  unfold requireArray
  split
  · simp_all
  · simp_all

theorem insertItem_eq_ok_iff {e : Editor} {t next op : Node} {path : String} {c : Control} :
    e.insertItem t path c op = .ok next ↔
      ∃ index xs raw item, c.kind = .array ∧ position op "index" = .ok index ∧
        t.getAt (Path.ofText path) = some (.array xs) ∧ index ≤ xs.length ∧
        op.member? "value" = some raw ∧ e.newItem path index raw = .ok item ∧
        newItemError? c item = none ∧
        next = t.setAt (Path.ofText path) (.array (xs.insertIdx index item)) := by
  unfold insertItem
  simp only [bind_eq_ok_iff, unless_throw_eq_ok_iff, requireArray_eq_ok_iff, items_eq_ok_iff,
    Nat.not_lt]
  constructor
  · rintro ⟨_, hk, index, hi, xs, hxs, hle, h⟩
    split at h
    · rename_i raw hraw
      obtain ⟨item, hitem, h⟩ := bind_eq_ok_iff.1 h
      split at h
      · cases h
      · rename_i herr
        have herr : newItemError? c item = none := by
          cases hn : newItemError? c item with
          | none => rfl
          | some err => exact absurd hn (herr err)
        exact ⟨index, xs, raw, item, hk, hi, hxs, hle, hraw, hitem, herr, (Except.ok.inj h).symm⟩
    · cases h
  · rintro ⟨index, xs, raw, item, hk, hi, hxs, hle, hraw, hitem, herr, rfl⟩
    refine ⟨(), hk, index, hi, xs, hxs, hle, ?_⟩
    simp only [hraw]
    refine bind_eq_ok_iff.2 ⟨item, hitem, ?_⟩
    simp only [herr]
    rfl

theorem removeItem_eq_ok_iff {t next op : Node} {path : String} {c : Control} :
    removeItem t path c op = .ok next ↔
      ∃ index xs, c.kind = .array ∧ position op "index" = .ok index ∧
        t.getAt (Path.ofText path) = some (.array xs) ∧ index < xs.length ∧
        next = t.setAt (Path.ofText path) (.array (xs.eraseIdx index)) := by
  unfold removeItem
  simp only [bind_eq_ok_iff, unless_throw_eq_ok_iff, requireArray_eq_ok_iff, items_eq_ok_iff,
    Nat.not_le]
  constructor
  · rintro ⟨_, hk, index, hi, xs, hxs, hlt, h⟩
    exact ⟨index, xs, hk, hi, hxs, hlt, (Except.ok.inj h).symm⟩
  · rintro ⟨index, xs, hk, hi, hxs, hlt, rfl⟩
    exact ⟨(), hk, index, hi, xs, hxs, hlt, rfl⟩

theorem moveItem_eq_ok_iff {t next op : Node} {path : String} {c : Control} :
    moveItem t path c op = .ok next ↔
      ∃ source target xs, c.kind = .array ∧ position op "from" = .ok source ∧
        position op "to" = .ok target ∧ t.getAt (Path.ofText path) = some (.array xs) ∧
        source < xs.length ∧ target < xs.length ∧
        next = t.setAt (Path.ofText path) (.array (moved source target xs)) := by
  unfold moveItem
  simp only [bind_eq_ok_iff, unless_throw_eq_ok_iff, requireArray_eq_ok_iff, items_eq_ok_iff]
  constructor
  · rintro ⟨_, hk, source, hs, target, ht, xs, hxs, hne, hlast, h⟩
    have hpos : 0 < xs.length := by
      cases xs with
      | nil => exact absurd rfl hne
      | cons _ _ => exact Nat.succ_pos _
    simp only [Bool.or_eq_true, decide_eq_true_eq, not_or] at hlast
    exact ⟨source, target, xs, hk, hs, ht, hxs, by omega, by omega, (Except.ok.inj h).symm⟩
  · rintro ⟨source, target, xs, hk, hs, ht, hxs, hsl, htl, rfl⟩
    have hne : ¬ xs.isEmpty = true := by
      rintro h
      simp [List.isEmpty_iff.1 h] at hsl
    have hlast : ¬ (decide (xs.length - 1 < source) || decide (xs.length - 1 < target)) = true := by
      simp only [Bool.or_eq_true, decide_eq_true_eq, not_or]
      omega
    exact ⟨(), hk, source, hs, target, ht, xs, hxs, hne, hlast, rfl⟩

/-- An accepted edit writes one value at its place, and no gap lies on the way. -/
theorem setAt_of_perform {e : Editor} {t next op : Node} {name path : String} {c : Control}
    (h : e.perform t name path c op = .ok next) :
    ∃ v, t.gapAt? (Path.ofText path) = none ∧ next = t.setAt (Path.ofText path) v := by
  unfold perform at h
  split at h
  · obtain ⟨_, v, _, hgap, _, _, _, rfl⟩ := setValue_eq_ok_iff.1 h
    exact ⟨_, hgap, rfl⟩
  · obtain ⟨_, _, _, _, _, _, hget, _, _, _, _, rfl⟩ := insertItem_eq_ok_iff.1 h
    exact ⟨_, Node.gapAt?_eq_none_of_getAt hget, rfl⟩
  · obtain ⟨_, _, _, _, hget, _, rfl⟩ := removeItem_eq_ok_iff.1 h
    exact ⟨_, Node.gapAt?_eq_none_of_getAt hget, rfl⟩
  · obtain ⟨_, _, _, _, _, _, hget, _, _, rfl⟩ := moveItem_eq_ok_iff.1 h
    exact ⟨_, Node.gapAt?_eq_none_of_getAt hget, rfl⟩
  · cases h

theorem change_eq_ok_iff {e : Editor} {t op next : Node} :
    e.change t op = .ok next ↔
      ∃ name path c, op.isObject = true ∧ (op.member? "op").bind Node.string? = some name ∧
        opPath? op = some path ∧ Path.hasProhibited (Text.split '.' path) = false ∧
        Control.governing? e.controls path = some c ∧ e.perform t name path c op = .ok next := by
  unfold change
  by_cases ho : op.isObject = true
  · rcases hn : (op.member? "op").bind Node.string? with _ | name
    · simp [ho]
    · rcases hp : opPath? op with _ | path
      · simp [ho]
      · by_cases hx : Path.hasProhibited (Text.split '.' path) = true
        · simp [ho, hx]
        · rcases hc : Control.governing? e.controls path with _ | c
          · simp [ho, hx, hc]
          · rcases hr : e.perform t name path c op with err | r <;> simp [ho, hx, hc, hr]
  · simp [ho]

/-- The place of an edit is not the root. -/
theorem ofText_opPath? {op : Node} {path : String} (h : opPath? op = some path) :
    Path.ofText path = Text.split '.' path := by
  have hne : path ≠ "" := by
    rintro rfl
    have hb := (Option.filter_eq_some_iff.1 h).2
    exact absurd hb (by decide)
  unfold Path.ofText
  rw [if_neg hne]

/-! ## Batches -/

theorem step_eq_ok_iff {e : Editor} {index : Nat} {t op next : Node} :
    e.step index t op = .ok next ↔
      e.change t op = .ok next ∧ (e.policy = .eachOp → IsValid next e.controls) := by
  unfold step IsValid
  rcases hc : e.change t op with ⟨path, err⟩ | u
  · simp
  · rcases hp : e.policy with _ | _
    · rcases hv : violations u e.controls with _ | ⟨v, vs⟩
      · simp only [hv, Except.ok.injEq, forall_const]
        exact ⟨fun h => ⟨h, h ▸ hv⟩, fun h => h.1⟩
      · simp only [hv, Except.ok.injEq, forall_const, reduceCtorEq, false_iff]
        rintro ⟨rfl, hvalid⟩
        rw [hv] at hvalid
        cases hvalid
    · simp

theorem run_cons_eq_ok_iff {e : Editor} {index : Nat} {t op final : Node} {ops : List Node} :
    e.run index t (op :: ops) = .ok final ↔
      ∃ next, e.step index t op = .ok next ∧ e.run (index + 1) next ops = .ok final := by
  rw [run]
  rcases e.step index t op with rejections | next <;> simp

theorem apply_eq_ok_iff {e : Editor} {data final : Node} {ops : List Node} :
    e.apply data ops = .ok final ↔ ops ≠ [] ∧ e.run 0 data ops = .ok final ∧
      (e.policy = .endOfBatch → IsValid final e.controls) := by
  unfold apply IsValid
  rcases ops with _ | ⟨op, ops⟩
  · simp
  · rcases hr : e.run 0 data (op :: ops) with rejections | u
    · simp
    · rcases hp : e.policy with _ | _
      · simp
      · rcases hv : violations u e.controls with _ | ⟨v, vs⟩
        · simp only [hv, List.isEmpty_cons, Bool.false_eq_true, if_false, Except.ok.injEq, ne_eq,
            reduceCtorEq, not_false_eq_true, true_and, forall_const]
          exact ⟨fun h => ⟨h, h ▸ hv⟩, fun h => h.1⟩
        · simp only [hv, List.isEmpty_cons, Bool.false_eq_true, if_false, Except.ok.injEq, ne_eq,
            reduceCtorEq, not_false_eq_true, true_and, forall_const, false_iff]
          rintro ⟨rfl, hvalid⟩
          rw [hv] at hvalid
          cases hvalid

/-- What every edit of a batch keeps, the whole batch keeps. -/
theorem run_preserves {e : Editor} {ops : List Node} {P : Node → Prop}
    (hstep : ∀ op ∈ ops, ∀ t next, e.change t op = .ok next → P t → P next)
    {index : Nat} {t final : Node} (h : e.run index t ops = .ok final) (ht : P t) : P final := by
  induction ops generalizing index t with
  | nil => exact Except.ok.inj h ▸ ht
  | cons op ops ih =>
    obtain ⟨next, hs, hrest⟩ := run_cons_eq_ok_iff.1 h
    have hnext := hstep op List.mem_cons_self t next (step_eq_ok_iff.1 hs).1 ht
    exact ih (fun o ho => hstep o (List.mem_cons_of_mem _ ho)) hrest hnext

theorem change_of_run_singleton {e : Editor} {op t final : Node} {index : Nat}
    (h : e.run index t [op] = .ok final) : e.change t op = .ok final := by
  obtain ⟨next, hs, hrest⟩ := run_cons_eq_ok_iff.1 h
  have hnext : next = final := Except.ok.inj hrest
  exact hnext ▸ (step_eq_ok_iff.1 hs).1

theorem isValid_of_run {e : Editor} (hpolicy : e.policy = .eachOp) {ops : List Node}
    {index : Nat} {t final : Node} (h : e.run index t ops = .ok final)
    (ht : ops = [] → IsValid t e.controls) : IsValid final e.controls := by
  induction ops generalizing index t with
  | nil => exact Except.ok.inj h ▸ ht rfl
  | cons op ops ih =>
    obtain ⟨next, hs, hrest⟩ := run_cons_eq_ok_iff.1 h
    exact ih hrest fun _ => (step_eq_ok_iff.1 hs).2 hpolicy

/-- A batch that goes through is a run, and its tree is valid under both policies. -/
theorem run_of_apply {e : Editor} {data final : Node} {ops : List Node}
    (h : e.apply data ops = .ok final) :
    e.run 0 data ops = .ok final ∧ IsValid final e.controls := by
  obtain ⟨hne, hrun, hend⟩ := apply_eq_ok_iff.1 h
  refine ⟨hrun, ?_⟩
  rcases hp : e.policy with _ | _
  · exact isValid_of_run hp hrun fun hnil => absurd hnil hne
  · exact hend hp

/-! ## A batch through a tree that is not valid -/

/-- The control of the text of an answer, below a control for whole answers. -/
def answerText : Control :=
  { panelId := "content", type := "field", path := "faqs.__idx__.answer.text", kind := .string }

/-- Questions with answers, checked at the end of a batch. -/
def answers : Editor :=
  { controls := [
      { panelId := "content", type := "field", path := "faqs", kind := .array,
        itemIdPath := some "id" },
      { panelId := "content", type := "field", path := "faqs.__idx__.answer", kind := .json },
      answerText]
    policy := .endOfBatch }

def answered (second : String) : Node :=
  .object [("faqs", .array [
    .object [("answer", .object [("text", .string "Yes")]), ("id", .string "a")],
    .object [("answer", .object [("text", .string second)]), ("id", .string "b")]])]

/-- The first edit stores a truth value where an answer belongs, the second repairs it. -/
def answerOps : List Node := [
  .object [("op", .string "set"), ("path", .string "faqs.01.answer"), ("value", .bool true)],
  .object [("op", .string "set"), ("path", .string "faqs.1.answer.text"),
    ("value", .string "Maybe")]]

theorem apply_answerOps : answers.apply (answered "No") answerOps = .ok (answered "Maybe") := rfl

end Editor

end WidgetSchema
