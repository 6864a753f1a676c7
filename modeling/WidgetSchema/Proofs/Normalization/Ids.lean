-- Ids of items. A rule goes from item to item and takes along the ids that are taken, so in the
-- end all items at its site have ids of their own. Where they have, the rule finds nothing to do:
-- each id that is there is new when its item comes.
import WidgetSchema.Proofs.Normalization.FreshIds
import WidgetSchema.Proofs.Normalization.Ways
namespace WidgetSchema

/-- The steps to the arrays of a rule for ids. -/
def IdRule.steps (r : IdRule) : List Step :=
  (Text.split '.' r.arrayPath).flatMap Normalization.stepsOf

/-- The site of a rule for ids: the member with the id, of all items of its arrays. -/
def IdRule.site (r : IdRule) : Site := ⟨r.steps ++ [.items], r.idKey⟩

namespace Normalization

open Node (membersAt ChangedAt visit visitList visitItems visitMember workAt places)

/-! ## Ids at a site -/

/-- The id that a member is read as. What is no text is read as none. -/
def idOf (m : Option Node) : String := ((m.bind Node.string?).map Text.trim).getD ""

def idsAt (key : String) (steps : List Step) (t : Node) : List String :=
  (membersAt key steps t).map idOf

/-- Ids that are there, each for one item only. -/
structure AreOwn (ids : List String) : Prop where
  nodup : ids.Nodup
  solid : "" ∉ ids

theorem areOwn_nil : AreOwn [] := ⟨List.nodup_nil, List.not_mem_nil⟩

theorem AreOwn.sublist {ids ids' : List String} (h : AreOwn ids) (hs : ids'.Sublist ids) :
    AreOwn ids' where
  nodup := h.nodup.sublist hs
  solid hmem := h.solid (hs.subset hmem)

theorem areOwn_reverse {ids : List String} : AreOwn ids.reverse ↔ AreOwn ids := by
  constructor
  · intro h
    exact ⟨List.nodup_reverse.1 h.nodup, fun hmem => h.solid (List.mem_reverse.2 hmem)⟩
  · intro h
    exact ⟨List.nodup_reverse.2 h.nodup, fun hmem => h.solid (List.mem_reverse.1 hmem)⟩

theorem AreOwn.cons {id : String} {used : List String} (hid : id ≠ "") (hnew : id ∉ used)
    (h : AreOwn used) : AreOwn (id :: used) where
  nodup := List.nodup_cons.2 ⟨hnew, h.nodup⟩
  solid hmem := (List.mem_cons.1 hmem).elim (fun heq => hid heq.symm) h.solid

/-! ## Naming -/

/-- A visit that gives the items at a site ids that are not taken yet, and leaves items as they
are whose ids are their own. -/
structure IsNaming (key : String) (steps : List Step)
    (f : Node → List String → Node × List String) : Prop where
  changed : ∀ t used, ChangedAt key steps t (f t used).1
  taken : ∀ t used, (f t used).2 = (idsAt key steps (f t used).1).reverse ++ used
  own : ∀ t used, AreOwn used → AreOwn (f t used).2
  stays : ∀ t used, AreOwn ((idsAt key steps t).reverse ++ used) →
    f t used = (t, (idsAt key steps t).reverse ++ used)

section Naming

variable {key : String} {steps : List Step}

theorem isNaming_visitMember {f : Node → List String → Node × List String}
    (hf : IsNaming key steps f) (k : String) :
    IsNaming key (.member k :: steps) (visitMember k f) where
  changed t used := by
    cases t with
    | object members =>
      rcases hx : Members.get? k members with _ | x
      · rw [Node.visitMember_of_get? hx]
        exact .same _ _
      · rw [Node.visitMember_object hx]
        exact .member hx (hf.changed x used)
    | _ => exact .same _ _
  taken t used := by
    cases t with
    | object members =>
      rcases hx : Members.get? k members with _ | x
      · rw [Node.visitMember_of_get? hx, idsAt, Node.membersAt_member_of_get? hx]
        rfl
      · rw [Node.visitMember_object hx, idsAt, Node.membersAt_member (Members.get?_set _ _ _)]
        exact hf.taken x used
    | _ => rfl
  own t used := by
    intro h
    cases t with
    | object members =>
      rcases hx : Members.get? k members with _ | x
      · rw [Node.visitMember_of_get? hx]
        exact h
      · rw [Node.visitMember_object hx]
        exact hf.own x used h
    | _ => exact h
  stays t used := by
    intro h
    cases t with
    | object members =>
      rcases hx : Members.get? k members with _ | x
      · rw [Node.visitMember_of_get? hx, idsAt, Node.membersAt_member_of_get? hx]
        rfl
      · rw [idsAt, Node.membersAt_member hx] at h ⊢
        rw [Node.visitMember_object hx, hf.stays x used h, Members.set_of_get? hx]
        rfl
    | _ => rfl

theorem idsAt_items (xs : List Node) :
    idsAt key (.items :: steps) (.array xs) = xs.flatMap (idsAt key steps) :=
  List.map_flatMap

variable {f : Nat → Node → List String → Node × List String}

theorem changed_visitList (hf : ∀ i, IsNaming key steps (f i)) (index : Nat) (xs : List Node)
    (used : List String) :
    List.Forall₂ (ChangedAt key steps) xs (visitList f index xs used).1 := by
  induction xs generalizing index used with
  | nil => exact .nil
  | cons x xs ih => exact .cons ((hf index).changed x used) (ih _ _)

theorem taken_visitList (hf : ∀ i, IsNaming key steps (f i)) (index : Nat) (xs : List Node)
    (used : List String) :
    (visitList f index xs used).2 =
      ((visitList f index xs used).1.flatMap (idsAt key steps)).reverse ++ used := by
  induction xs generalizing index used with
  | nil => rfl
  | cons x xs ih =>
    rw [visitList, List.flatMap_cons, List.reverse_append, List.append_assoc,
      ← (hf index).taken x used]
    exact ih _ _

theorem own_visitList (hf : ∀ i, IsNaming key steps (f i)) (index : Nat) (xs : List Node)
    {used : List String} (h : AreOwn used) : AreOwn (visitList f index xs used).2 := by
  induction xs generalizing index used with
  | nil => exact h
  | cons x xs ih => exact ih _ ((hf index).own x used h)

theorem stays_visitList (hf : ∀ i, IsNaming key steps (f i)) (index : Nat) (xs : List Node)
    {used : List String} (h : AreOwn ((xs.flatMap (idsAt key steps)).reverse ++ used)) :
    visitList f index xs used = (xs, (xs.flatMap (idsAt key steps)).reverse ++ used) := by
  induction xs generalizing index used with
  | nil => rfl
  | cons x xs ih =>
    rw [List.flatMap_cons, List.reverse_append, List.append_assoc] at h ⊢
    have hfirst := (hf index).stays x used (h.sublist (List.sublist_append_right _ _))
    rw [visitList, hfirst, ih _ h]

theorem isNaming_visitItems (hf : ∀ i, IsNaming key steps (f i)) :
    IsNaming key (.items :: steps) (visitItems f) where
  changed t used := by
    cases t with
    | array xs =>
      obtain ⟨length, item⟩ := List.forall₂_iff_get.1 (changed_visitList hf 0 xs used)
      exact .items length item
    | _ => exact .same _ _
  taken t used := by
    cases t with
    | array xs =>
      rw [visitItems, idsAt_items]
      exact taken_visitList hf 0 xs used
    | _ => rfl
  own t used := by
    intro h
    cases t with
    | array xs => exact own_visitList hf 0 xs h
    | _ => exact h
  stays t used := by
    intro h
    cases t with
    | array xs =>
      rw [idsAt_items] at h ⊢
      rw [visitItems, stays_visitList hf 0 xs h]
    | _ => rfl

theorem isNaming_visit {g : Node → List String → Node × List String} {rest : List Step}
    (hg : IsNaming key rest g) (steps : List Step) : IsNaming key (steps ++ rest) (visit g steps) := by
  induction steps with
  | nil => exact hg
  | cons step steps ih =>
    cases step with
    | member k => exact isNaming_visitMember ih k
    | items => exact isNaming_visitItems fun _ => ih

end Naming

/-! ## One item -/

/-- The id that an item gets. -/
def nextId (rule : IdRule) (index : Nat) (members : Members Node) (used : List String) : String :=
  uniqueId (idSeed rule (numbering rule) index (.object members)
    (idOf (Members.get? rule.idKey members))) used

/-- An item with its id, which is stored where it is not the one that was there. -/
def nameItem (rule : IdRule) (index : Nat) : Node → List String → Node × List String
  | .object members, used =>
    (if nextId rule index members used = idOf (Members.get? rule.idKey members) then .object members
      else .object (Members.set rule.idKey (.string (nextId rule index members used)) members),
      nextId rule index members used :: used)
  | t, used => (t, used)

theorem trim_idOf (m : Option Node) : Text.trim (idOf m) = idOf m := by
  unfold idOf
  rcases m.bind Node.string? with _ | text
  · decide
  · exact Text.trim_trim text

theorem isId_nextId (rule : IdRule) (index : Nat) (members : Members Node) (used : List String) :
    IsId (nextId rule index members used) :=
  isId_uniqueId (trim_idSeed rule index _ (trim_idOf _)) used

theorem idsAt_nil (key : String) (members : Members Node) :
    idsAt key [] (.object members) = [idOf (Members.get? key members)] := rfl

theorem isNaming_nameItem (rule : IdRule) (index : Nat) :
    IsNaming rule.idKey [] (nameItem rule index) where
  changed t used := by
    cases t with
    | object members =>
      unfold nameItem
      dsimp only
      split
      · exact .same _ _
      · exact .here members rfl
    | _ => exact .same _ _
  taken t used := by
    cases t with
    | object members =>
      unfold nameItem
      dsimp only
      split
      · rename_i hsame
        rw [idsAt_nil, ← hsame]
        rfl
      · have hread : idOf (some (.string (nextId rule index members used))) =
            nextId rule index members used := (isId_nextId rule index members used).trimmed
        rw [idsAt_nil, Members.get?_set, hread]
        rfl
    | _ => rfl
  own t used := by
    intro h
    cases t with
    | object members =>
      exact h.cons (isId_nextId rule index members used).ne_empty (uniqueId_notMem _ _)
    | _ => exact h
  stays t used := by
    intro h
    cases t with
    | object members =>
      rw [idsAt_nil] at h ⊢
      have hne : idOf (Members.get? rule.idKey members) ≠ "" := fun hnil =>
        h.solid (hnil ▸ List.mem_cons_self)
      have hnew : idOf (Members.get? rule.idKey members) ∉ used := (List.nodup_cons.1 h.nodup).1
      have hnext : nextId rule index members used = idOf (Members.get? rule.idKey members) := by
        rw [nextId, idSeed, if_pos hne, uniqueId_of_notMem hne hnew]
      rw [nameItem, if_pos hnext, hnext]
      rfl
    | _ => rfl

/-! ## One rule -/

section Rule

variable {r : IdRule}

/-- The place of an item, told by the place of its array and its position. -/
def itemPlace (place : Path × Nat) : Path × Nat := (place.1 ++ [toString place.2], place.2)

/-- To repair an id is to give the item at its place an id. -/
theorem repairId_eq_workAt (hkey : isSafeKey r.idKey = true) (s : IdState) (place : Path × Nat) :
    workAt (nameItem r) (s.tree, s.used) (itemPlace place) =
      ((repairId r s place).tree, (repairId r s place).used) := by
  obtain ⟨array, index⟩ := place
  unfold repairId workAt itemPlace
  simp only [below_toString, below_key hkey]
  rcases hx : s.tree.getAt (array ++ [toString index]) with _ | x
  · rfl
  · cases x with
    | object members =>
      refine congrArg (·, nextId r index members s.used :: s.used) ?_
      have hset : (Node.object members).setAt [r.idKey] (.string (nextId r index members s.used)) =
          .object (Members.set r.idKey (.string (nextId r index members s.used)) members) := by
        rw [Node.setAt_object_cons, Node.setAt_nil]
      by_cases hsame : nextId r index members s.used = idOf (Members.get? r.idKey members)
      · rw [nameItem, if_pos hsame, Node.setAt_of_getAt hx]
        exact (if_pos hsame).symm
      · rw [nameItem, if_neg hsame, ← hset, ← Node.setAt_append hx]
        exact (if_neg hsame).symm
    | _ => exact congrArg (·, s.used) (Node.setAt_of_getAt hx)

/-- The places of all items that a rule reaches, with their positions. -/
def itemPlaces (r : IdRule) (t : Node) : List (Path × Nat) :=
  Node.placesBelow (fun x => (x.array?.getD []).zipIdx.map fun (_, i) => ([toString i], i))
    r.steps t

theorem map_range_eq (p : Path) (xs : List Node) :
    ((List.range xs.length).map fun i => (p, i)).map itemPlace =
      (xs.zipIdx.map fun (_, i) => ([toString i], i)).map (Prod.map (p ++ ·) id) := by
  rw [List.range_eq_range', ← List.zipIdx_map_snd 0 xs, List.map_map, List.map_map, List.map_map]
  rfl

theorem map_items_eq_itemPlaces (h : r.IsSound) (t : Node) :
    ((arrays t r).flatMap fun (p, n) => (List.range n).map fun i => (p, i)).map itemPlace =
      itemPlaces r t := by
  unfold arrays itemPlaces IdRule.steps Node.placesBelow
  rw [reach_eq_places h.path.safe, List.filterMap_eq_flatMap_toList, List.flatMap_assoc,
    List.map_flatMap]
  refine List.flatMap_congr fun place _ => ?_
  obtain ⟨p, x⟩ := place
  cases x with
  | array xs =>
    refine Eq.trans ?_ (map_range_eq p xs)
    exact congrArg (List.map itemPlace) (List.flatMap_singleton _ _)
  | _ => rfl

theorem applyIdRule_eq_visit (h : r.IsSound) {t : Node} (ht : t.Addressable) :
    applyIdRule t r = (visit (visitItems (nameItem r)) r.steps t []).1 := by
  have hvisit : (itemPlaces r t).foldl (workAt (nameItem r)) (t, []) = _ :=
    Node.foldl_placesBelow (Node.isLocal_workAt (nameItem r))
      (fun x hx s => Node.foldl_workAt_items (nameItem r) hx s) _ ht []
  rw [← map_items_eq_itemPlaces h, List.foldl_map] at hvisit
  have hsame := @List.foldl_hom IdState _ _ (fun s => (s.tree, s.used)) (repairId r)
    (fun s place => workAt (nameItem r) s (itemPlace place))
    ((arrays t r).flatMap fun (p, n) => (List.range n).map fun i => (p, i)) ⟨t, []⟩
    fun s place => repairId_eq_workAt h.key s place
  exact (congrArg Prod.fst hsame).symm.trans (congrArg Prod.fst hvisit)

theorem isNaming_rule (r : IdRule) :
    IsNaming r.site.key r.site.steps (visit (visitItems (nameItem r)) r.steps) :=
  isNaming_visit (isNaming_visitItems (isNaming_nameItem r)) _

/-- A rule changes nothing but the members with the ids, which become texts. -/
theorem changedAt_applyIdRule (h : r.IsSound) {t : Node} (ht : t.Addressable) :
    ChangedAt r.site.key r.site.steps t (applyIdRule t r) := by
  rw [applyIdRule_eq_visit h ht]
  exact (isNaming_rule r).changed t []

/-- After a rule all items at its site have ids of their own. -/
theorem areOwn_applyIdRule (h : r.IsSound) {t : Node} (ht : t.Addressable) :
    AreOwn (idsAt r.site.key r.site.steps (applyIdRule t r)) := by
  have hown := (isNaming_rule r).own t [] areOwn_nil
  rw [(isNaming_rule r).taken, List.append_nil, areOwn_reverse] at hown
  rw [applyIdRule_eq_visit h ht]
  exact hown

/-- Where all items have ids of their own, a rule changes nothing. -/
theorem applyIdRule_eq_self (h : r.IsSound) {t : Node} (ht : t.Addressable)
    (hown : AreOwn (idsAt r.site.key r.site.steps t)) : applyIdRule t r = t := by
  have hstays := (isNaming_rule r).stays t []
  rw [List.append_nil, areOwn_reverse] at hstays
  rw [applyIdRule_eq_visit h ht, hstays hown]

end Rule

end Normalization

end WidgetSchema
