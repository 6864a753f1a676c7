-- The outline of a tree: its objects and its texts. Rules that ask for members and texts only
-- see nothing else, so they cannot tell two trees with one outline apart.
import WidgetSchema.Proofs.Node.Place
namespace WidgetSchema.Node

mutual

/-- The objects and texts of a tree, as far as members lead. Everything else is left blank. -/
def outline : Node → Node
  | string s => string s
  | object members => object (outlineMembers members)
  | null | bool _ | number _ | array _ => null

def outlineMembers : List (String × Node) → List (String × Node)
  | [] => []
  | (k, v) :: ms => (k, outline v) :: outlineMembers ms

end

theorem outlineMembers_eq_map (members : Members Node) :
    outlineMembers members = members.map fun m => (m.1, m.2.outline) := by
  induction members with
  | nil => rfl
  | cons m ms ih => rw [outlineMembers, List.map_cons, ih]

@[simp]
theorem string?_outline (t : Node) : t.outline.string? = t.string? := by
  cases t <;> rfl

@[simp]
theorem isObject_outline (t : Node) : t.outline.isObject = t.isObject := by
  cases t <;> rfl

theorem get?_outlineMembers (key : String) (members : Members Node) :
    Members.get? key (outlineMembers members) = (Members.get? key members).map outline := by
  induction members with
  | nil => rfl
  | cons m ms ih =>
    obtain ⟨k, v⟩ := m
    by_cases hk : k = key <;> simp [outlineMembers, Members.get?, hk, ih]

@[simp]
theorem member?_outline (t : Node) (key : String) :
    t.outline.member? key = (t.member? key).map outline := by
  cases t with
  | object members => exact get?_outlineMembers key members
  | _ => rfl

theorem outlineMembers_set {key : String} {x y : Node} {members : Members Node}
    (h : Members.get? key members = some x) (hxy : y.outline = x.outline) :
    outlineMembers (Members.set key y members) = outlineMembers members := by
  rw [Members.set, if_pos (Members.has_of_get? h)]
  induction members with
  | nil => rfl
  | cons m ms ih =>
    obtain ⟨k, v⟩ := m
    by_cases hk : k = key
    · have hv : v = x := by simpa [Members.get?, hk] using h
      simp [Members.replace, outlineMembers, hk, hxy, hv]
    · have hrest : Members.get? key ms = some x := by simpa [Members.get?, hk] using h
      simp [Members.replace, outlineMembers, hk, ih hrest]

/-- A value that gives way to one with the same outline leaves the outline of the tree as it
is. -/
theorem outline_setAt {t v w : Node} {p : Path} (h : t.getAt p = some v)
    (hvw : w.outline = v.outline) : (t.setAt p w).outline = t.outline := by
  induction p generalizing t with
  | nil =>
    have htv : t = v := Option.some.inj h
    rw [setAt_nil, hvw, htv]
  | cons s p ih =>
    obtain ⟨x, hx, hv⟩ := Option.bind_eq_some_iff.1 h
    cases t with
    | array items =>
      obtain ⟨i, hi, hxi⟩ := getElem?_of_child? hx
      rw [setAt_array hi hxi]
      rfl
    | object members =>
      rw [setAt_object hx, outline, outline, outlineMembers_set hx (ih hv)]
    | _ => simp [child?] at hx

end WidgetSchema.Node
