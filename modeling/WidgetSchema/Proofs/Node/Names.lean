-- The names of members anywhere in a tree, and where they come from when the tree is written.
import WidgetSchema.Proofs.Node.Place
namespace WidgetSchema.Node

mutual

/-- The names of the members of all objects in a tree, at any depth. -/
def deepNames : Node → List String
  | array items => itemNames items
  | object members => memberNames members
  | null | bool _ | number _ | string _ => []

def itemNames : List Node → List String
  | [] => []
  | x :: xs => deepNames x ++ itemNames xs

def memberNames : List (String × Node) → List String
  | [] => []
  | (k, v) :: ms => k :: (deepNames v ++ memberNames ms)

end

theorem mem_deepNames_array {name : String} {items : List Node} :
    name ∈ (array items).deepNames ↔ ∃ x ∈ items, name ∈ x.deepNames := by
  simp only [deepNames]
  induction items with
  | nil => simp [itemNames]
  | cons x xs ih => simp [itemNames, ih]

theorem mem_deepNames_object {name : String} {members : Members Node} :
    name ∈ (object members).deepNames ↔
      ∃ m ∈ members, name = m.1 ∨ name ∈ m.2.deepNames := by
  simp only [deepNames]
  induction members with
  | nil => simp [memberNames]
  | cons m ms ih =>
    obtain ⟨k, v⟩ := m
    simp [memberNames, ih, or_assoc]

theorem mem_deepNames_of_child? {name s : String} {t c : Node} (hc : t.child? s = some c)
    (h : name ∈ c.deepNames) : name ∈ t.deepNames := by
  cases t with
  | array items =>
    obtain ⟨i, _, hi⟩ := Option.bind_eq_some_iff.1 hc
    exact mem_deepNames_array.2 ⟨c, List.mem_of_getElem? hi, h⟩
  | object members =>
    exact mem_deepNames_object.2 ⟨(s, c), Members.mem_of_get? hc, Or.inr h⟩
  | _ => simp [child?] at hc

/-- The names in a part of a tree are names in the tree. -/
theorem mem_deepNames_of_getAt {name : String} {t v : Node} {p : Path} (hv : t.getAt p = some v)
    (h : name ∈ v.deepNames) : name ∈ t.deepNames := by
  induction p generalizing t with
  | nil =>
    have htv : t = v := Option.some.inj hv
    exact htv ▸ h
  | cons s p ih =>
    obtain ⟨c, hc, hv⟩ := Option.bind_eq_some_iff.1 hv
    exact mem_deepNames_of_child? hc (ih hv)

theorem mem_deepNames_getD {name s : String} {t : Node}
    (h : name ∈ ((t.child? s).getD null).deepNames) : name ∈ t.deepNames := by
  rcases hc : t.child? s with _ | c
  · simp [hc, deepNames] at h
  · rw [hc] at h
    exact mem_deepNames_of_child? hc h

theorem mem_or_eq_null_of_mem_padTo {x : Node} {items : List Node} {i : Nat}
    (h : x ∈ padTo items i) : x ∈ items ∨ x = null := by
  rcases List.mem_append.1 h with h | h
  · exact Or.inl h
  · exact Or.inr (List.eq_of_mem_replicate h)

/-- One step of a write brings in its segment and what it writes below. -/
theorem mem_deepNames_setAt_cons {name s : String} {t v : Node} {p : Path}
    (h : name ∈ (t.setAt (s :: p) v).deepNames) :
    name ∈ t.deepNames ∨ name = s ∨ name ∈ (((t.child? s).getD null).setAt p v).deepNames := by
  cases t with
  | array items =>
    rcases hi : Path.index? s with _ | i
    · rw [setAt_array_cons, hi, Option.elim_none] at h
      obtain ⟨m, hm, h⟩ := mem_deepNames_object.1 h
      simp only [List.mem_singleton] at hm
      subst hm
      simpa [child?, hi] using Or.inr h
    · rw [setAt_array_cons, hi, Option.elim_some] at h
      obtain ⟨x, hx, h⟩ := mem_deepNames_array.1 h
      rcases List.mem_or_eq_of_mem_set hx with hx | rfl
      · rcases mem_or_eq_null_of_mem_padTo hx with hx | rfl
        · exact Or.inl (mem_deepNames_array.2 ⟨x, hx, h⟩)
        · simp [deepNames] at h
      · exact Or.inr (Or.inr (by simpa [child?, hi] using h))
  | object members =>
    rw [setAt_object_cons] at h
    obtain ⟨m, hm, h⟩ := mem_deepNames_object.1 h
    rcases Members.mem_of_mem_set hm with rfl | hm
    · exact Or.inr h
    · exact Or.inl (mem_deepNames_object.2 ⟨m, hm, h⟩)
  | _ =>
    rw [setAt_leaf_cons rfl rfl] at h
    obtain ⟨m, hm, h⟩ := mem_deepNames_object.1 h
    simp only [List.mem_singleton] at hm
    subst hm
    exact Or.inr (by simpa [child?] using h)

/-- After a write there are no names but those there were, the segments of the place and the
names in the value. -/
theorem mem_deepNames_setAt {name : String} {t v : Node} {p : Path}
    (h : name ∈ (t.setAt p v).deepNames) :
    name ∈ t.deepNames ∨ name ∈ p ∨ name ∈ v.deepNames := by
  induction p generalizing t with
  | nil =>
    rw [setAt_nil] at h
    exact Or.inr (Or.inr h)
  | cons s p ih =>
    rcases mem_deepNames_setAt_cons h with h | rfl | h
    · exact Or.inl h
    · exact Or.inr (Or.inl List.mem_cons_self)
    · rcases ih h with h | h | h
      · exact Or.inl (mem_deepNames_getD h)
      · exact Or.inr (Or.inl (List.mem_cons_of_mem _ h))
      · exact Or.inr (Or.inr h)

end WidgetSchema.Node
