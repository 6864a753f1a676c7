-- An edit that sets a value, made a second time. What it stores depends on the tree in one point
-- only: the text of a custom size takes the form of the scale of its role. The scales of all
-- roles stand beside the roles, so no edit of a size changes them, and the second time the same
-- value comes to a place that already holds it.
import WidgetSchema.Proofs.Edit.Items
import WidgetSchema.Proofs.Text.Split
namespace WidgetSchema.Editor

/-! ## The place of a custom size -/

/-- The segments of the place of a custom size, and of the scale that it takes its form from. -/
theorem ofText_of_sizeRole? {path role : String} (h : sizeRole? path = some role) :
    Path.ofText path = ["typography", "roles", role, "sizeCustom"] ∧
      Path.ofText ("typography.roleScales." ++ role) = ["typography", "roleScales", role] := by
  unfold sizeRole? at h
  split at h
  · rename_i name hsplit
    split at h
    · cases h
    · obtain rfl : name = role := Option.some.inj h
      have hpath : path ≠ "" := by
        rintro rfl
        have hone : Text.split '.' "" = [""] := rfl
        simp [hone] at hsplit
      have hname : name ∈ Text.split '.' path := by
        rw [hsplit]
        simp
      have hdots := Text.split_of_notMem (Text.notMem_of_mem_split hname)
      have hcut : "typography.roleScales." = "typography.roleScales" ++ String.singleton '.' := rfl
      have hscale : "typography.roleScales." ++ name ≠ "" := by simp
      refine ⟨by rw [Path.ofText, if_neg hpath, hsplit], ?_⟩
      rw [Path.ofText, if_neg hscale, hcut, Text.split_append, hdots]
      rfl
  · cases h

/-- The kind of a scale stays when a custom size of its role is written. -/
theorem ofRole?_setAt {path role : String} (h : sizeRole? path = some role) (t v : Node) :
    ScaleKind.ofRole? (t.setAt (Path.ofText path) v) role = ScaleKind.ofRole? t role := by
  obtain ⟨hsize, hscale⟩ := ofText_of_sizeRole? h
  have hbeside := Node.getAt_setAt_of_ne (s := "roles") (r := "roleScales") (by decide) (by decide)
    t ["typography"] [role, "sizeCustom"] [role] v
  unfold ScaleKind.ofRole?
  rw [hsize, hscale]
  exact congrArg (fun x => (x.filter Node.isObject).bind ScaleKind.ofScale?) hbeside

/-- What an edit stores does not depend on what its place holds. -/
theorem storedValue_setAt (t : Node) (path : String) (v : ControlValue) (w : Node) :
    storedValue (t.setAt (Path.ofText path) w) path v = storedValue t path v := by
  unfold storedValue
  rcases hrole : sizeRole? path with _ | role
  · rfl
  · rcases v.text? with _ | text
    · rfl
    · simp only [ofRole?_setAt hrole]

/-! ## The second time -/

/-- What sets a value once sets it again, and the tree stays. -/
theorem setValue_again {e : Editor} {t next : Node} {path : String} {c : Control}
    {value : Option Node} (h : e.setValue t path c value = .ok next) :
    e.setValue next path c value = .ok next := by
  obtain ⟨raw, v, hraw, -, hread, hbound, hids, rfl⟩ := setValue_eq_ok_iff.1 h
  have hthere := Node.getAt_setAt_self t (Path.ofText path) (storedValue t path v)
  refine setValue_eq_ok_iff.2
    ⟨raw, v, hraw, Node.gapAt?_eq_none_of_getAt hthere, hread, hbound, ?_, ?_⟩
  · rw [storedValue_setAt]
    exact hids
  · rw [storedValue_setAt, Node.setAt_of_getAt hthere]

/-- Under every mode and policy, an accepted edit that sets a value is accepted again on the tree
that it leads to, valid or not as the first tree was, and then it changes nothing. -/
theorem a_value_that_was_set_can_be_set_again {e : Editor} {data next op : Node}
    (hop : op.member? "op" = some (.string "set")) (h : e.apply data [op] = .ok next) :
    e.apply next [op] = .ok next := by
  obtain ⟨hrun, hvalid⟩ := run_of_apply h
  obtain ⟨name, path, c, hobject, hname, hpath, hclean, hc, hperform⟩ :=
    change_eq_ok_iff.1 (change_of_run_singleton hrun)
  obtain rfl : "set" = name := by
    rw [hop] at hname
    exact Option.some.inj hname
  have hagain : e.perform next "set" path c op = .ok next := setValue_again hperform
  exact apply_singleton_eq_ok
    (change_eq_ok_iff.2 ⟨"set", path, c, hobject, hname, hpath, hclean, hc, hagain⟩) hvalid

/-! ## A custom size in pixels -/

/-- A control of the custom size of titles. -/
def titleSize : Editor :=
  { controls := [{ panelId := "typography", type := "valuefield",
                   path := "typography.roles.title.sizeCustom", kind := .string }] }

/-- Titles on a scale of lengths, with a custom size. -/
def sized (size : String) : Node :=
  .object [("typography", .object [
    ("globalFamily", .string "Inter"),
    ("roleScales", .object [("title", .object [("l", .string "24px"), ("m", .string "20px"),
      ("s", .string "16px"), ("xl", .string "32px"), ("xs", .string "12px")])]),
    ("roles", .object [("title", .object [("family", .string "Inter"),
      ("fontStyle", .string "normal"), ("sizeCustom", .string size),
      ("weight", .string "700")])])])]

def storeSize (size : String) : Node :=
  .object [("op", .string "set"), ("path", .string "typography.roles.title.sizeCustom"),
    ("value", .string size)]

/-- A bare number is stored in pixels, from a size that is not valid and once more from there. -/
theorem a_bare_size_is_stored_in_pixels_twice :
    ¬ IsValid (sized "") titleSize.controls ∧
      (storeSize " 40 ").member? "op" = some (.string "set") ∧
      titleSize.apply (sized "") [storeSize " 40 "] = .ok (sized "40px") ∧
      titleSize.apply (sized "40px") [storeSize " 40 "] = .ok (sized "40px") := by
  have honce : titleSize.apply (sized "") [storeSize " 40 "] = .ok (sized "40px") := rfl
  exact ⟨by decide, rfl, honce, a_value_that_was_set_can_be_set_again rfl honce⟩

end WidgetSchema.Editor
