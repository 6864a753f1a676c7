-- When a value of a valid tree may give way to another one. The new value has to fit what the
-- old one fits, and to have its outline: then the controls above it, with their ids, and the
-- rules of typography see no difference.
import Mathlib.Data.List.Perm.Subperm
import WidgetSchema.Proofs.Control.Fits
import WidgetSchema.Proofs.Typography.Outline
namespace WidgetSchema.Control

open Node (outline)

/-! ## Ids -/

theorem itemId?_outline (idKey : String) (item : Node) :
    itemId? idKey item.outline = itemId? idKey item := by
  simp only [itemId?, Node.member?_outline, Option.bind_map, Function.comp_def,
    Node.string?_outline]

theorem itemIdFault?_outline (idKey : String) (seen : List String) (items : List Node) :
    itemIdFault? idKey seen (items.map outline) = itemIdFault? idKey seen items := by
  induction items generalizing seen with
  | nil => rfl
  | cons item items ih =>
    simp only [List.map_cons, itemIdFault?, Node.isObject_outline, itemId?_outline, ih]

/-- The ids of the items of an array. -/
def itemIds (idKey : String) (items : List Node) : List String := items.filterMap (itemId? idKey)

/-- No fault is found when all items are objects with ids, and no id is there twice. -/
theorem itemIdFault?_eq_none_iff {idKey : String} {seen : List String} {items : List Node} :
    itemIdFault? idKey seen items = none ↔
      (∀ x ∈ items, x.isObject = true ∧ (itemId? idKey x).isSome = true) ∧
        (itemIds idKey items).Nodup ∧ ∀ id ∈ itemIds idKey items, id ∉ seen := by
  induction items generalizing seen with
  | nil => simp [itemIdFault?, itemIds]
  | cons item items ih =>
    unfold itemIdFault?
    by_cases ho : item.isObject = true
    · rw [if_pos ho]
      rcases hid : itemId? idKey item with _ | id
      · simp [hid]
      · by_cases hseen : id ∈ seen
        · simp [hid, itemIds, hseen]
        · have hcontains : ¬ seen.contains id = true := by simpa using hseen
          have hids : itemIds idKey (item :: items) = id :: itemIds idKey items := by
            simp [itemIds, hid]
          rw [hids, List.forall_mem_cons, List.forall_mem_cons, List.nodup_cons]
          simp only [if_neg hcontains, ih, List.mem_cons, not_or]
          constructor
          · rintro ⟨hall, hnodup, hnew⟩
            refine ⟨⟨⟨ho, by rw [hid]; rfl⟩, hall⟩, ⟨?_, hnodup⟩, hseen, fun x hx => (hnew x hx).2⟩
            intro hmem
            exact (hnew id hmem).1 rfl
          · rintro ⟨⟨_, hall⟩, ⟨hnot, hnodup⟩, _, hnew⟩
            refine ⟨hall, hnodup, fun x hx => ⟨?_, hnew x hx⟩⟩
            rintro rfl
            exact hnot hx
    · simp [ho]

/-- Ids that are all there once stay so when items go or change their order. -/
theorem itemIdFault?_of_subperm {idKey : String} {xs ys : List Node} (hsub : ys.Subperm xs)
    (h : itemIdFault? idKey [] xs = none) : itemIdFault? idKey [] ys = none := by
  obtain ⟨hall, hnodup, _⟩ := itemIdFault?_eq_none_iff.1 h
  obtain ⟨zs, hperm, hsublist⟩ := hsub
  have hids : (itemIds idKey ys).Nodup :=
    (hperm.filterMap _).nodup_iff.1 ((hsublist.filterMap _).nodup hnodup)
  refine itemIdFault?_eq_none_iff.2 ⟨?_, hids, fun _ _ => List.not_mem_nil⟩
  intro y hy
  exact hall y (hsublist.subset (hperm.mem_iff.2 hy))

/-! ## Values with one outline -/

/-- Items with the same outlines are judged alike. -/
theorem fault?_array_congr {c : Control} {xs ys : List Node}
    (h : ys.map outline = xs.map outline) : c.fault? (.array ys) = c.fault? (.array xs) := by
  have hids : c.idsFault? (.array ys) = c.idsFault? (.array xs) := by
    unfold idsFault?
    rcases c.itemIdPath with _ | idKey
    · rfl
    · simp only [Node.array?]
      rw [← itemIdFault?_outline, h, itemIdFault?_outline]
  unfold fault?
  rw [hids]
  cases c.kind <;> rfl

theorem fault?_object_congr (c : Control) (ms ns : Members Node) :
    c.fault? (.object ms) = c.fault? (.object ns) := by
  unfold fault?
  cases c.kind <;> rfl

theorem map_outline_set {items : List Node} {i : Nat} {x y : Node} (hx : items[i]? = some x)
    (hxy : y.outline = x.outline) : (items.set i y).map outline = items.map outline := by
  obtain ⟨hlt, rfl⟩ := List.getElem?_eq_some_iff.1 hx
  have hlt' : i < (items.map outline).length := by rwa [List.length_map]
  have hself : (items.map outline)[i] = y.outline := by rw [List.getElem_map, hxy]
  rw [List.map_set, ← hself, List.set_getElem_self hlt']

/-- A value gives way to one that fits what it fits and has its outline, and the tree around it
goes on fitting. -/
theorem fits_setAt {c : Control} {segments p : Path} {t v w : Node}
    (h : c.Fits segments (some t)) (hv : t.getAt p = some v) (ho : w.outline = v.outline)
    (hvw : ∀ rest, c.Fits rest (some v) → c.Fits rest (some w)) :
    c.Fits segments (some (t.setAt p w)) := by
  induction p generalizing segments t with
  | nil =>
    have htv : t = v := Option.some.inj hv
    rw [Node.setAt_nil]
    exact hvw segments (htv ▸ h)
  | cons s p ih =>
    obtain ⟨x, hx, hxv⟩ := Option.bind_eq_some_iff.1 hv
    cases t with
    | array items =>
      obtain ⟨i, hi, hxi⟩ := Node.getElem?_of_child? hx
      rw [Node.setAt_array hi hxi]
      cases segments with
      | nil =>
        have hout : (x.setAt p w).outline = x.outline := Node.outline_setAt hxv ho
        exact (fault?_array_congr (map_outline_set hxi hout)).trans h
      | cons σ rest =>
        refine ⟨h.1, fun y hy => ?_⟩
        rcases List.mem_or_eq_of_mem_set hy with hy | rfl
        · exact h.2 y hy
        · exact ih (h.2 x (List.mem_of_getElem? hxi)) hxv
    | object members =>
      rw [Node.setAt_object hx]
      cases segments with
      | nil => exact (fault?_object_congr c _ members).trans h
      | cons σ rest =>
        refine ⟨h.1, ?_⟩
        have hrest : c.Fits rest (Members.get? σ members) := h.2
        by_cases hσ : σ = s
        · have hx : Members.get? s members = some x := hx
          rw [hσ, hx] at hrest
          rw [hσ, Members.get?_set]
          exact ih hrest hxv
        · rw [Members.get?_set_ne hσ]
          exact hrest
    | _ => simp [Node.child?] at hx

/-- A valid tree stays valid when a value gives way to one that fits under every control what
it fits, and has its outline. -/
theorem isValid_setAt {controls : List Control} {data v w : Node} {p : Path}
    (h : IsValid data controls) (hv : data.getAt p = some v) (ho : w.outline = v.outline)
    (hvw : ∀ c ∈ controls, ∀ rest, c.Fits rest (some v) → c.Fits rest (some w)) :
    IsValid (data.setAt p w) controls := by
  obtain ⟨hfits, htypography⟩ := isValid_iff.1 h
  refine isValid_iff.2 ⟨fun c hc => fits_setAt (hfits c hc) hv ho (hvw c hc), ?_⟩
  rw [← Typography.violations_outline, Node.outline_setAt hv ho, Typography.violations_outline]
  exact htypography

/-! ## Arrays -/

theorem idsFault?_array_eq_none_iff {c : Control} {xs : List Node} :
    c.idsFault? (.array xs) = none ↔ ∀ idKey ∈ c.itemIdPath, itemIdFault? idKey [] xs = none := by
  unfold idsFault?
  rcases c.itemIdPath with _ | idKey
  · simp
  · simp [Node.array?]

theorem fault?_array_of_subperm {c : Control} {xs ys : List Node} (hsub : ys.Subperm xs)
    (h : c.fault? (.array xs) = none) : c.fault? (.array ys) = none := by
  have hids : c.idsFault? (.array xs) = none → c.idsFault? (.array ys) = none := by
    intro hxs
    refine idsFault?_array_eq_none_iff.2 fun idKey hkey => ?_
    exact itemIdFault?_of_subperm hsub (idsFault?_array_eq_none_iff.1 hxs idKey hkey)
  unfold fault? at h ⊢
  cases hk : c.kind with
  | array =>
    rw [hk] at h
    exact hids h
  | json => rfl
  | _ =>
    rw [hk] at h
    exact h

/-- Whatever an array fits, it goes on fitting when items go or change their order. -/
theorem fits_of_subperm {c : Control} {segments : Path} {xs ys : List Node}
    (hsub : ys.Subperm xs) (h : c.Fits segments (some (.array xs))) :
    c.Fits segments (some (.array ys)) := by
  cases segments with
  | nil => exact fault?_array_of_subperm hsub h
  | cons σ rest => exact ⟨h.1, fun y hy => h.2 y (hsub.subset hy)⟩

/-- A valid tree stays valid when items of one of its arrays go or change their order. -/
theorem isValid_setAt_array {controls : List Control} {data : Node} {p : Path}
    {xs ys : List Node} (h : IsValid data controls) (hxs : data.getAt p = some (.array xs))
    (hsub : ys.Subperm xs) : IsValid (data.setAt p (.array ys)) controls :=
  isValid_setAt h hxs rfl fun _ _ _ => fits_of_subperm hsub

end WidgetSchema.Control
