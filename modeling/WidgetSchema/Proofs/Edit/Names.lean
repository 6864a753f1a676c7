-- The prohibited names and the values of edits. No edit names such a member in its place. But
-- a control for a whole value takes the value as it is, and the value may hold such members:
-- that is the one way in.
import WidgetSchema.Proofs.Edit.Accepted
import WidgetSchema.Proofs.Node.Names
namespace WidgetSchema.Editor

/-- The value that an edit brings into the tree, as the control at its place reads it. -/
def payload? (e : Editor) (op : Node) : Option Node :=
  match (op.member? "op").bind Node.string?, opPath? op, op.member? "value" with
  | some "set", some path, some raw =>
    (Control.governing? e.controls path).bind fun c =>
      (c.coerce e.mode raw).toOption.map ControlValue.toNode
  | some "insert", some path, some raw =>
    (position op "index").toOption.bind fun index => (e.newItem path index raw).toOption
  | _, _, _ => none

/-! ## The value that is written -/

theorem deepNames_storedValue (t : Node) (path : String) (v : ControlValue) :
    (storedValue t path v).deepNames = v.toNode.deepNames := by
  unfold storedValue
  split
  · rename_i hv
    cases v <;> simp_all [ControlValue.text?, ControlValue.toNode, Node.deepNames]
  · rfl

theorem mem_of_mem_moved {source target : Nat} {x : Node} {xs : List Node}
    (hs : source < xs.length) (ht : target < xs.length) (h : x ∈ moved source target xs) :
    x ∈ xs := by
  unfold moved at h
  rw [List.getElem?_eq_getElem hs] at h
  have hle : target ≤ (xs.eraseIdx source).length := by
    rw [List.length_eraseIdx_of_lt hs]
    omega
  rcases (List.mem_insertIdx hle).1 h with rfl | h
  · exact List.getElem_mem hs
  · exact List.mem_of_mem_eraseIdx h

theorem mem_deepNames_of_items {name : String} {t : Node} {p : Path} {xs ys : List Node}
    (hxs : t.getAt p = some (.array xs)) (hys : ∀ y ∈ ys, y ∈ xs)
    (h : name ∈ (Node.array ys).deepNames) : name ∈ t.deepNames := by
  obtain ⟨y, hy, hn⟩ := Node.mem_deepNames_array.1 h
  exact Node.mem_deepNames_of_getAt hxs (Node.mem_deepNames_array.2 ⟨y, hys y hy, hn⟩)

/-- Every name in the value that an edit writes was in the tree or is in its payload, and every
name in its payload is written. -/
theorem written_of_change {e : Editor} {t op next : Node} (h : e.change t op = .ok next) :
    ∃ path w, opPath? op = some path ∧ Path.hasProhibited (Text.split '.' path) = false ∧
      next = t.setAt (Path.ofText path) w ∧
      (∀ name ∈ w.deepNames,
        name ∈ t.deepNames ∨ ∃ v, e.payload? op = some v ∧ name ∈ v.deepNames) ∧
      ∀ v, e.payload? op = some v → ∀ name ∈ v.deepNames, name ∈ w.deepNames := by
  obtain ⟨kind, path, c, _, hkind, hpath, hclean, hc, hperform⟩ := change_eq_ok_iff.1 h
  unfold perform at hperform
  split at hperform
  · obtain ⟨raw, v, hraw, _, hv, _, _, rfl⟩ := setValue_eq_ok_iff.1 hperform
    have hpayload : e.payload? op = some v.toNode := by
      simp [payload?, hkind, hpath, hraw, hc, hv, Except.toOption]
    refine ⟨path, _, hpath, hclean, rfl, ?_, ?_⟩
    · intro name hn
      rw [deepNames_storedValue] at hn
      exact Or.inr ⟨_, hpayload, hn⟩
    · intro w hw name hn
      rw [hpayload] at hw
      rw [deepNames_storedValue, Option.some.inj hw]
      exact hn
  · obtain ⟨index, xs, raw, item, _, hi, hxs, hle, hraw, hitem, _, rfl⟩ :=
      insertItem_eq_ok_iff.1 hperform
    have hpayload : e.payload? op = some item := by
      simp [payload?, hkind, hpath, hraw, hi, hitem, Except.toOption]
    refine ⟨path, _, hpath, hclean, rfl, ?_, ?_⟩
    · intro name hn
      obtain ⟨x, hx, hxn⟩ := Node.mem_deepNames_array.1 hn
      rcases (List.mem_insertIdx hle).1 hx with rfl | hx
      · exact Or.inr ⟨_, hpayload, hxn⟩
      · exact Or.inl (Node.mem_deepNames_of_getAt hxs (Node.mem_deepNames_array.2 ⟨x, hx, hxn⟩))
    · intro w hw name hn
      rw [hpayload] at hw
      exact Node.mem_deepNames_array.2
        ⟨item, (List.mem_insertIdx hle).2 (Or.inl rfl), Option.some.inj hw ▸ hn⟩
  · obtain ⟨index, xs, _, _, hxs, _, rfl⟩ := removeItem_eq_ok_iff.1 hperform
    have hpayload : e.payload? op = none := by simp [payload?, hkind]
    refine ⟨path, _, hpath, hclean, rfl, ?_, ?_⟩
    · intro name hn
      exact Or.inl (mem_deepNames_of_items hxs (fun y => List.mem_of_mem_eraseIdx) hn)
    · intro w hw
      rw [hpayload] at hw
      cases hw
  · obtain ⟨source, target, xs, _, _, _, hxs, hs, ht, rfl⟩ := moveItem_eq_ok_iff.1 hperform
    have hpayload : e.payload? op = none := by simp [payload?, hkind]
    refine ⟨path, _, hpath, hclean, rfl, ?_, ?_⟩
    · intro name hn
      exact Or.inl (mem_deepNames_of_items hxs (fun y => mem_of_mem_moved hs ht) hn)
    · intro w hw
      rw [hpayload] at hw
      cases hw
  · cases hperform

/-! ## The names after an edit -/

theorem not_mem_of_hasProhibited {name : String} {p : Path} (hname : Path.isProhibited name = true)
    (hp : Path.hasProhibited p = false) : name ∉ p := by
  intro hmem
  have hany : Path.hasProhibited p = true := List.any_eq_true.2 ⟨name, hmem, hname⟩
  rw [hp] at hany
  cases hany

/-- A prohibited name that is there after an edit was there before or came with its payload. -/
theorem prohibited_of_change {e : Editor} {t op next : Node} (h : e.change t op = .ok next)
    {name : String} (hname : Path.isProhibited name = true) (hn : name ∈ next.deepNames) :
    name ∈ t.deepNames ∨ ∃ v, e.payload? op = some v ∧ name ∈ v.deepNames := by
  obtain ⟨path, w, hpath, hclean, rfl, hw, _⟩ := written_of_change h
  rcases Node.mem_deepNames_setAt hn with hn | hn | hn
  · exact Or.inl hn
  · rw [ofText_opPath? hpath] at hn
    exact absurd hn (not_mem_of_hasProhibited hname hclean)
  · exact hw name hn

/-- Whatever names the payload of an edit has, the tree has them after the edit. -/
theorem payload_names_of_change {e : Editor} {t op next v : Node} (h : e.change t op = .ok next)
    (hv : e.payload? op = some v) {name : String} (hn : name ∈ v.deepNames) :
    name ∈ next.deepNames := by
  obtain ⟨path, w, _, _, rfl, _, hw⟩ := written_of_change h
  exact Node.mem_deepNames_of_getAt (Node.getAt_setAt_self _ _ _) (hw v hv name hn)

/-! ## The names after a batch -/

/-- A prohibited name that is there after an accepted batch was there before or came with the
payload of an edit of the batch, and a single edit does bring in what its payload has. -/
theorem a_prohibited_name_comes_only_with_a_payload {e : Editor} {data next : Node}
    {ops : List Node} (h : e.apply data ops = .ok next) {name : String}
    (hname : Path.isProhibited name = true) :
    (name ∈ next.deepNames → name ∈ data.deepNames ∨
      ∃ op ∈ ops, ∃ v, e.payload? op = some v ∧ name ∈ v.deepNames) ∧
      ∀ op, ops = [op] → ∀ v, e.payload? op = some v → name ∈ v.deepNames →
        name ∈ next.deepNames := by
  have hrun := (run_of_apply h).1
  constructor
  · refine run_preserves (P := fun t => name ∈ t.deepNames → name ∈ data.deepNames ∨
      ∃ op ∈ ops, ∃ v, e.payload? op = some v ∧ name ∈ v.deepNames) ?_ hrun Or.inl
    intro op hop t u hchange ht hu
    rcases prohibited_of_change hchange hname hu with hn | hv
    · exact ht hn
    · exact Or.inr ⟨op, hop, hv⟩
  · rintro op rfl v hv hn
    exact payload_names_of_change (change_of_run_singleton hrun) hv hn

/-! ## A value that brings a name in -/

/-- A widget with one free-form member. -/
def freeForm : Editor :=
  { controls := [{ panelId := "content", type := "field", path := "config", kind := .json }] }

def storeConfig (value : Node) : Node :=
  .object [("op", .string "set"), ("path", .string "config"), ("value", value)]

def config (value : Node) : Node := .object [("config", value)]

def polluting : Node := .object [("__proto__", .bool true)]

theorem apply_storeConfig :
    freeForm.apply (config .null) [storeConfig polluting] = .ok (config polluting) := rfl

/-- The name in the stored value is in the tree. -/
theorem the_stored_name_is_there :
    freeForm.apply (config .null) [storeConfig polluting] = .ok (config polluting) ∧
      Path.isProhibited "__proto__" = true ∧ "__proto__" ∈ (config polluting).deepNames := by
  have hname : Path.isProhibited "__proto__" = true := by decide
  have hcause := a_prohibited_name_comes_only_with_a_payload apply_storeConfig hname
  exact ⟨apply_storeConfig, hname, hcause.2 _ rfl polluting rfl (by decide)⟩

/-- A tree without prohibited names does not stay so under every accepted batch. -/
theorem a_value_can_bring_in_a_prohibited_name :
    ¬ ∀ (e : Editor) (data next : Node) (ops : List Node), e.apply data ops = .ok next →
      (∀ name ∈ data.deepNames, Path.isProhibited name = false) →
      ∀ name ∈ next.deepNames, Path.isProhibited name = false := by
  intro hall
  have hclean : ∀ name ∈ (config .null).deepNames, Path.isProhibited name = false := by decide
  have hname := hall _ _ _ _ apply_storeConfig hclean "__proto__" (by decide)
  exact absurd hname (by decide)

end WidgetSchema.Editor
