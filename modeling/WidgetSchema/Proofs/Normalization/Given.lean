-- Ids that a rule gives. The rule comes to all items of its arrays, one after another, with the ids
-- it has seen so far. An id that is there stays as long as none of the items before has it by now;
-- otherwise, and where there is none, an id is given that is new. So each item ends with an id of
-- its own, but an item may lose its id to one that comes before it.
import WidgetSchema.Proofs.Control.Exchange
import WidgetSchema.Proofs.Node.Reached
import WidgetSchema.Proofs.Normalization.Twice
namespace WidgetSchema

open Normalization
open Node (places membersAt Pass IsPass)

/-! ## The items of a rule -/

namespace IdRule

/-- The objects among the items of an array, with their places. -/
def objectsIn (place : Path × Node) : List (Path × Node) :=
  ((place.2.array?.getD []).zipIdx.map fun (x, i) => (place.1 ++ [toString i], x)).filter
    fun item => item.2.isObject

/-- The items that a rule comes to: the objects in all arrays that it reaches. -/
def items (r : IdRule) (t : Node) : List (Path × Node) :=
  (reach t (Text.split '.' r.arrayPath)).flatMap objectsIn

/-- The id that an item is read with: its text without blank ends. -/
def readId (r : IdRule) (item : Path × Node) : String := idOf (item.2.member? r.idKey)

variable {r : IdRule} {t : Node}

theorem items_eq_places (h : r.IsSound) (t : Node) :
    r.items t = (places r.site.steps t).filter fun item => item.2.isObject := by
  rw [site, Node.places_append, Node.placesBelow, List.filter_flatMap, items,
    reach_eq_places h.path.safe]
  refine List.flatMap_congr fun place _ => ?_
  rw [objectsIn, places, List.map_flatMap, List.map_eq_flatMap]
  exact congrArg _ (List.flatMap_congr fun _ _ => rfl)

theorem isObject_of_mem_items (h : r.IsSound) {item : Path × Node} (hitem : item ∈ r.items t) :
    item.2.isObject = true := by
  rw [items_eq_places h] at hitem
  exact (List.mem_filter.1 hitem).2

/-- What the place of an item holds under its key. -/
theorem getAt_of_mem_items (h : r.IsSound) (ht : t.Addressable) {item : Path × Node}
    (hitem : item ∈ r.items t) : t.getAt (item.1 ++ [r.idKey]) = item.2.member? r.idKey := by
  have hobject := isObject_of_mem_items h hitem
  rw [items_eq_places h] at hitem
  exact Node.getAt_member_of_mem_places ht (List.mem_filter.1 hitem).1 hobject r.idKey

/-- The ids at the site of a rule are those of its items. -/
theorem map_readId_items (h : r.IsSound) (t : Node) :
    (r.items t).map r.readId = idsAt r.site.key r.site.steps t := by
  rw [items_eq_places h, idsAt, Node.membersAt_eq_places]
  induction places r.site.steps t with
  | nil => rfl
  | cons place ps ih =>
    obtain ⟨p, x⟩ := place
    rw [List.flatMap_cons, List.map_append, ← ih]
    cases x <;> rfl

end IdRule

namespace Normalization

/-! ## Ids that are there -/

theorem exists_of_idOf_ne {m : Option Node} (h : idOf m ≠ "") :
    ∃ text, m = some (.string text) ∧ Text.isBlankText text = false := by
  rcases m with _ | x
  · exact absurd rfl h
  · cases x with
    | string text =>
      refine ⟨text, rfl, Bool.eq_false_iff.2 fun hblank => h ?_⟩
      exact congrArg String.ofList (Text.trimChars_eq_nil.2 hblank)
    | _ => exact absurd rfl h

/-- No fault is found in objects that have ids of their own. -/
theorem idsFault?_of_areOwn {c : Control} {idKey : String} (hc : c.itemIdPath = some idKey)
    {xs : List Node} (hobjects : ∀ x ∈ xs, x.isObject = true)
    (hown : AreOwn (xs.map fun x => idOf (x.member? idKey))) : c.idsFault? (.array xs) = none := by
  have hid : ∀ x ∈ xs, ∃ text, Control.itemId? idKey x = some text ∧
      Text.trim text = idOf (x.member? idKey) := by
    intro x hx
    have hne : idOf (x.member? idKey) ≠ "" := fun hnil =>
      hown.solid (hnil ▸ List.mem_map_of_mem hx)
    obtain ⟨text, hmember, hsolid⟩ := exists_of_idOf_ne hne
    refine ⟨text, ?_, by rw [hmember]; rfl⟩
    simp [Control.itemId?, hmember, Node.string?, hsolid]
  have htrim : (Control.itemIds idKey xs).map Text.trim =
      xs.map fun x => idOf (x.member? idKey) := by
    clear hobjects hown
    induction xs with
    | nil => rfl
    | cons x xs ih =>
      obtain ⟨text, htext, hread⟩ := hid x List.mem_cons_self
      have hrest := ih fun y hy => hid y (List.mem_cons_of_mem _ hy)
      rw [Control.itemIds] at hrest ⊢
      rw [List.filterMap_cons_some htext, List.map_cons, List.map_cons, hread, hrest]
  refine Control.idsFault?_array_eq_none_iff.2 fun key hkey => ?_
  obtain rfl : idKey = key := Option.some.inj (hc.symm.trans hkey)
  refine Control.itemIdFault?_eq_none_iff.2 ⟨fun x hx => ⟨hobjects x hx, ?_⟩, ?_, ?_⟩
  · obtain ⟨text, htext, -⟩ := hid x hx
    rw [htext, Option.isSome_some]
  · exact List.Nodup.of_map Text.trim (htrim ▸ hown.nodup)
  · exact fun id _ => List.not_mem_nil

/-! ## One item -/

/-- An item before and after it gets an id, with the ids that are taken by then. -/
inductive IsNamed (r : IdRule) : Node → List String → Node → List String → Prop
  | other {x : Node} (no_object : x.isObject = false) (used : List String) :
      IsNamed r x used x used
  | kept {index : Nat} {members : Members Node} {used : List String}
      (same : nextId r index members used = idOf (Members.get? r.idKey members)) :
      IsNamed r (.object members) used (.object members)
        (idOf (Members.get? r.idKey members) :: used)
  | given {index : Nat} {members : Members Node} {used : List String} {id : String}
      (next : nextId r index members used = id)
      (new : id ≠ idOf (Members.get? r.idKey members)) :
      IsNamed r (.object members) used (.object (Members.set r.idKey (.string id) members))
        (id :: used)

variable {r : IdRule}

theorem nextId_of_ne (index : Nat) {members : Members Node} {used : List String}
    (hid : idOf (Members.get? r.idKey members) ≠ "") :
    nextId r index members used = uniqueId (idOf (Members.get? r.idKey members)) used := by
  rw [nextId, idSeed, if_pos hid]

theorem isNamed_nameItem (index : Nat) (x : Node) (used : List String) :
    IsNamed r x used (nameItem r index x used).1 (nameItem r index x used).2 := by
  cases x with
  | object members =>
    by_cases hsame : nextId r index members used = idOf (Members.get? r.idKey members)
    · rw [nameItem, if_pos hsame, hsame]
      exact .kept hsame
    · rw [nameItem, if_neg hsame]
      exact .given rfl hsame
  | _ => exact .other rfl used

namespace IsNamed

variable {x y : Node} {used used' : List String}

theorem isObject_eq (h : IsNamed r x used y used') : y.isObject = x.isObject := by
  cases h <;> rfl

theorem used_eq (h : IsNamed r x used y used') (hx : x.isObject = false) : used' = used := by
  cases h with
  | other => rfl
  | kept => cases hx
  | given => cases hx

theorem member?_given (id : String) (members : Members Node) :
    (Node.object (Members.set r.idKey (.string id) members)).member? r.idKey =
      some (.string id) :=
  Members.get?_set _ _ _

/-- What is given is read as it was given. -/
theorem idOf_given {index : Nat} {members : Members Node} {used : List String} {id : String}
    (next : nextId r index members used = id) : idOf (some (.string id)) = id :=
  next ▸ (isId_nextId r index members used).trimmed

/-- The id of the item is taken. -/
theorem taken (h : IsNamed r x used y used') (hx : x.isObject = true) :
    used' = idOf (y.member? r.idKey) :: used := by
  cases h with
  | other no_object => rw [no_object] at hx; cases hx
  | kept => rfl
  | @given index members used id next new =>
    rw [member?_given, idOf_given next]

/-- Either the member of an item stays, or an id without blank ends is stored there. -/
theorem member_cases (h : IsNamed r x used y used') :
    y.member? r.idKey = x.member? r.idKey ∨
      y.member? r.idKey = some (.string (idOf (y.member? r.idKey))) := by
  cases h with
  | other | kept => exact Or.inl rfl
  | @given index members used id next new =>
    rw [member?_given, idOf_given next]
    exact Or.inr rfl

/-- An item whose id is not taken yet stays as it is. -/
theorem eq_of_new (h : IsNamed r x used y used') (hid : idOf (x.member? r.idKey) ≠ "")
    (hnew : idOf (x.member? r.idKey) ∉ used) :
    y = x ∧ used' = idOf (x.member? r.idKey) :: used := by
  cases h with
  | other no_object =>
    cases x with
    | object members => cases no_object
    | _ => exact absurd rfl hid
  | kept => exact ⟨rfl, rfl⟩
  | @given index members used id next new =>
    have hnext : nextId r index members used = idOf (Members.get? r.idKey members) :=
      (nextId_of_ne index hid).trans (uniqueId_of_notMem hid hnew)
    exact absurd (next.symm.trans hnext) new

/-- An id that is there stays if it is not taken yet, and only then. -/
theorem stays_iff (h : IsNamed r x used y used') (hid : idOf (x.member? r.idKey) ≠ "") :
    y.member? r.idKey = x.member? r.idKey ↔ idOf (x.member? r.idKey) ∉ used := by
  constructor
  · intro hsame
    cases h with
    | other no_object =>
      cases x with
      | object members => cases no_object
      | _ => exact absurd rfl hid
    | @kept index members used same =>
      have hnew := uniqueId_notMem (idOf (Members.get? r.idKey members)) used
      rwa [← nextId_of_ne index hid, same] at hnew
    | @given index members used id next new =>
      rw [member?_given] at hsame
      exact absurd ((idOf_given next).symm.trans (congrArg idOf hsame)) new
  · intro hnew
    rw [(h.eq_of_new hid hnew).1]

end IsNamed

/-! ## All items -/

theorem used_of_pass {used used' : List String} {ps qs : List (Path × Node)}
    (h : Pass (IsNamed r) used ps qs used') (hobjects : ∀ p ∈ ps, p.2.isObject = true) :
    used' = (qs.map r.readId).reverse ++ used := by
  induction h with
  | done => rfl
  | next here rest ih =>
    rw [ih fun p hp => hobjects p (List.mem_cons_of_mem _ hp),
      here.taken (hobjects _ List.mem_cons_self), List.map_cons, List.reverse_cons,
      List.append_assoc]
    rfl

/-- Items whose ids are their own stay as they are. -/
theorem eq_of_pass {used used' : List String} {ps qs : List (Path × Node)}
    (h : Pass (IsNamed r) used ps qs used') (hown : AreOwn ((ps.map r.readId).reverse ++ used)) :
    qs = ps := by
  induction h with
  | done => rfl
  | @next used used₁ used' p x y ps qs here rest ih =>
    rw [List.map_cons, List.reverse_cons, List.append_assoc] at hown
    obtain ⟨hnodup, hsolid⟩ := hown.sublist (List.sublist_append_right _ _)
    have hid : idOf (x.member? r.idKey) ≠ "" := fun hnil => hsolid (hnil ▸ List.mem_cons_self)
    obtain ⟨rfl, rfl⟩ := here.eq_of_new hid (List.nodup_cons.1 hnodup).1
    rw [ih hown]

/-! ## One rule -/

section Rule

variable {t : Node}

/-- A rule comes to its items one after another, and gives each of them an id. -/
theorem exists_pass (h : r.IsSound) (ht : t.Addressable) :
    ∃ used, Pass (IsNamed r) [] (r.items t) (r.items (applyIdRule t r)) used := by
  have hitems (i : Nat) : IsPass (IsNamed r) [] (nameItem r i) := fun x used =>
    .next (isNamed_nameItem i x used) (.done _)
  have hvisit := Node.isPass_visit (Node.isPass_visitItems hitems) r.steps
  have hpass := (hvisit t []).filter Node.isObject (fun _ _ _ _ h => h.isObject_eq)
    fun _ _ _ _ h => h.used_eq
  rw [← applyIdRule_eq_visit h ht] at hpass
  rw [IdRule.items_eq_places h, IdRule.items_eq_places h]
  exact ⟨_, hpass⟩

/-- When the rule comes to an item, the ids of all items before it are taken. -/
theorem exists_of_items (h : r.IsSound) (ht : t.Addressable) {before after : List (Path × Node)}
    {item : Path × Node} (hitems : r.items t = before ++ item :: after) :
    ∃ before' y after' used', r.items (applyIdRule t r) = before' ++ (item.1, y) :: after' ∧
      Pass (IsNamed r) [] before before' (before'.map r.readId).reverse ∧
      IsNamed r item.2 (before'.map r.readId).reverse y used' := by
  obtain ⟨_, hpass⟩ := exists_pass h ht
  have hobjects : ∀ other ∈ before, other.2.isObject = true := fun other hother =>
    IdRule.isObject_of_mem_items h (hitems ▸ List.mem_append_left _ hother)
  rw [hitems] at hpass
  obtain ⟨used, before', rest, hnamed, hfirst, hrest⟩ := hpass.exists_of_append
  obtain rfl : used = _ := (used_of_pass hfirst hobjects).trans (List.append_nil _)
  cases hrest with
  | next here => exact ⟨before', _, _, _, hnamed, hfirst, here⟩

theorem areOwn_items (h : r.IsSound) (ht : t.Addressable) :
    AreOwn ((r.items (applyIdRule t r)).map r.readId) := by
  rw [IdRule.map_readId_items h]
  exact areOwn_applyIdRule h ht

/-- The items of one array are items of the rule. -/
theorem sublist_items {p : Path} {xs : List Node}
    (hxs : (p, .array xs) ∈ reach t (Text.split '.' r.arrayPath))
    (hobjects : ∀ x ∈ xs, x.isObject = true) :
    (xs.map fun x => idOf (x.member? r.idKey)).Sublist ((r.items t).map r.readId) := by
  have hall : IdRule.objectsIn (p, .array xs) =
      xs.zipIdx.map fun (x, i) => (p ++ [toString i], x) := by
    refine List.filter_eq_self.2 fun item hitem => ?_
    obtain ⟨⟨x, i⟩, hx, rfl⟩ := List.mem_map.1 hitem
    exact hobjects x (List.fst_mem_of_mem_zipIdx hx)
  have hids : (IdRule.objectsIn (p, .array xs)).map r.readId =
      (xs.zipIdx.map Prod.fst).map fun x => idOf (x.member? r.idKey) := by
    rw [hall, List.map_map, List.map_map]
    rfl
  rw [List.zipIdx_map_fst] at hids
  rw [← hids]
  exact (List.infix_flatMap_of_mem hxs IdRule.objectsIn).sublist.map _

end Rule

/-- After a rule every item in the arrays that it reaches has an id that is not blank and not the
id of any other item, so no array of objects among them has a fault. Only the ids of these items
may differ from what they were. -/
theorem every_item_has_an_id_of_its_own {raw : Node} {n : Normalization}
    (h : read raw = .ok (some n)) {r : IdRule} (hr : r ∈ n.idRules) {t : Node}
    (ht : t.Addressable) :
    (∀ item ∈ r.items (applyIdRule t r), ∃ id,
      item.2.member? r.idKey = some (.string id) ∧ Text.isBlankText id = false) ∧
    ((r.items (applyIdRule t r)).map r.readId).Nodup ∧
    (∀ (c : Control) (p : Path) (xs : List Node), c.itemIdPath = some r.idKey →
      (p, .array xs) ∈ reach (applyIdRule t r) (Text.split '.' r.arrayPath) →
      (∀ x ∈ xs, x.isObject = true) → c.idsFault? (.array xs) = none) ∧
    (r.items (applyIdRule t r)).map (·.1) = (r.items t).map (·.1) ∧
    (applyIdRule t r).without r.site = t.without r.site := by
  have hsound := (isSound_of_read h).idRules r hr
  have hown := areOwn_items hsound ht
  obtain ⟨used, hpass⟩ := exists_pass hsound ht
  refine ⟨fun item hitem => ?_, hown.nodup, fun c p xs hc hxs hobjects => ?_, hpass.map_fst,
    (changedAt_applyIdRule hsound ht).without_eq⟩
  · exact exists_of_idOf_ne fun hnil => hown.solid (hnil ▸ List.mem_map_of_mem hitem)
  · exact idsFault?_of_areOwn hc hobjects (hown.sublist (sublist_items hxs hobjects))

/-- Topics in two sections. Two of them have an id that is the same without its blank ends, and
two have none. -/
def topicSections : Node :=
  .object [("sections", .array [
    .object [("topics", .array [.object [], .object [("id", .string " news ")]])],
    .object [("topics", .array [.object [("id", .string "news")],
      .object [("title", .string "Late News")], .object [("id", seven)]])]])]

def topicRule : IdRule :=
  { arrayPath := "sections[].topics", idKey := "id", seedKey := some "title" }

def topicRules : Normalization := { idRules := [topicRule], coerceRules := [] }

theorem the_topics_have_ids_of_their_own :
    read topicRules.toNode = .ok (some topicRules) ∧ topicRule ∈ topicRules.idRules ∧
      topicSections.Addressable ∧
      (topicRule.items (applyIdRule topicSections topicRule)).map topicRule.readId =
        ["id-1", "news", "news-2", "late-news", "id-3"] ∧
      ["id-1", "news", "news-2", "late-news", "id-3"].Nodup ∧
      (applyIdRule topicSections topicRule).without topicRule.site =
        topicSections.without topicRule.site := by
  have hread : read topicRules.toNode = .ok (some topicRules) := rfl
  have haddressable : topicSections.Addressable := by
    simp [topicSections, seven, Node.Addressable, Node.AddressableItems, Node.AddressableMembers]
  have hids : (topicRule.items (applyIdRule topicSections topicRule)).map topicRule.readId =
      ["id-1", "news", "news-2", "late-news", "id-3"] := rfl
  obtain ⟨-, hnodup, -, -, hrest⟩ :=
    every_item_has_an_id_of_its_own hread List.mem_cons_self haddressable
  exact ⟨hread, List.mem_cons_self, haddressable, hids, hids ▸ hnodup, hrest⟩

/-! ## Ids that are there already -/

section Stays

variable {r : IdRule} {t : Node} {before before' : List (Path × Node)} {item : Path × Node}

/-- Of an id that none of the items has before, an item has it afterwards only if it is given. -/
theorem readId_mem_iff (h : r.IsSound) (hu : (applyIdRule t r).Addressable) {used : List String}
    (hpass : Pass (IsNamed r) [] before before' used)
    (hitems : before' ⊆ r.items (applyIdRule t r))
    (hown : ∀ other ∈ before, r.readId other ≠ r.readId item) :
    r.readId item ∈ before'.map r.readId ↔ ∃ other ∈ before,
      (applyIdRule t r).getAt (other.1 ++ [r.idKey]) = some (.string (r.readId item)) := by
  constructor
  · intro hmem
    obtain ⟨other, hother, hread⟩ := List.mem_map.1 hmem
    obtain ⟨x, _, _, hx, hnamed⟩ := hpass.exists_of_mem_after hother
    refine ⟨(other.1, x), hx, ?_⟩
    rw [IdRule.getAt_of_mem_items h hu (hitems hother)]
    rcases hnamed.member_cases with hsame | hgiven
    · exact absurd ((congrArg idOf hsame).symm.trans hread) (hown _ hx)
    · exact hgiven.trans (congrArg (some <| Node.string ·) hread)
  · rintro ⟨other, hother, hget⟩
    obtain ⟨y, _, _, hy, -⟩ := hpass.exists_of_mem hother
    have hmember := IdRule.getAt_of_mem_items h hu (hitems hy)
    refine List.mem_map.2 ⟨(other.1, y), hy, ?_⟩
    calc r.readId (other.1, y)
      _ = idOf (some (.string (r.readId item))) := congrArg idOf (hmember.symm.trans hget)
      _ = r.readId item := trim_idOf _

end Stays

/-- An item whose id none of the items before it has keeps the id, unless the id is given to one of
them. If they have ids of their own, nothing is given to them. -/
theorem an_id_stays_unless_it_is_given_before {raw : Node} {n : Normalization}
    (h : read raw = .ok (some n)) {r : IdRule} (hr : r ∈ n.idRules) {t : Node}
    (ht : t.Addressable) {before after : List (Path × Node)} {item : Path × Node}
    (hitems : r.items t = before ++ item :: after) (hid : r.readId item ≠ "")
    (hown : ∀ other ∈ before, r.readId other ≠ r.readId item) :
    ((applyIdRule t r).getAt (item.1 ++ [r.idKey]) = t.getAt (item.1 ++ [r.idKey]) ↔
      ∀ other ∈ before,
        (applyIdRule t r).getAt (other.1 ++ [r.idKey]) ≠ some (.string (r.readId item))) ∧
    (AreOwn (before.map r.readId) →
      (applyIdRule t r).getAt (item.1 ++ [r.idKey]) = t.getAt (item.1 ++ [r.idKey])) := by
  have hsound := (isSound_of_read h).idRules r hr
  have hu := addressable_applyIdRule hsound ht
  obtain ⟨before', y, after', _, hnamed, hpass, here⟩ := exists_of_items hsound ht hitems
  have hold : t.getAt (item.1 ++ [r.idKey]) = item.2.member? r.idKey :=
    IdRule.getAt_of_mem_items hsound ht (hitems ▸ List.mem_append_right _ List.mem_cons_self)
  have hthere : (item.1, y) ∈ r.items (applyIdRule t r) :=
    hnamed ▸ List.mem_append_right _ List.mem_cons_self
  have hnew : (applyIdRule t r).getAt (item.1 ++ [r.idKey]) = y.member? r.idKey :=
    IdRule.getAt_of_mem_items hsound hu hthere
  have hstays : y.member? r.idKey = item.2.member? r.idKey ↔
      r.readId item ∉ (before'.map r.readId).reverse := here.stays_iff hid
  rw [List.mem_reverse] at hstays
  rw [hold, hnew, hstays]
  constructor
  · rw [readId_mem_iff hsound hu hpass (hnamed ▸ List.subset_append_left _ _) hown]
    simp only [not_exists, not_and, ne_eq]
  · intro hbefore
    rw [eq_of_pass hpass (by rwa [List.append_nil, areOwn_reverse])]
    intro hmem
    obtain ⟨other, hother, hread⟩ := List.mem_map.1 hmem
    exact hown other hother hread

/-- A question without an id, and one with an id behind it. -/
def questionPair (id : String) : Node :=
  .object [("faqs", .array [.object [], .object [("id", .string id)]])]

def pairRule : IdRule := { arrayPath := "faqs", idKey := "id" }

def pairRules : Normalization := { idRules := [pairRule], coerceRules := [] }

theorem addressable_questionPair (id : String) : (questionPair id).Addressable := by
  simp [questionPair, Node.Addressable, Node.AddressableItems, Node.AddressableMembers]

theorem the_id_of_the_second_question_stays :
    read pairRules.toNode = .ok (some pairRules) ∧ pairRule ∈ pairRules.idRules ∧
      (questionPair " why ").Addressable ∧
      pairRule.items (questionPair " why ") = [(["faqs", "0"], .object [])] ++
        (["faqs", "1"], .object [("id", .string " why ")]) :: [] ∧
      (applyIdRule (questionPair " why ") pairRule).getAt ["faqs", "0", "id"] =
        some (.string "id-1") ∧
      (applyIdRule (questionPair " why ") pairRule).getAt ["faqs", "1", "id"] =
        some (.string " why ") := by
  have hread : read pairRules.toNode = .ok (some pairRules) := rfl
  have haddressable := addressable_questionPair " why "
  have hitems : pairRule.items (questionPair " why ") = [(["faqs", "0"], .object [])] ++
      (["faqs", "1"], .object [("id", .string " why ")]) :: [] := rfl
  have hfirst : (applyIdRule (questionPair " why ") pairRule).getAt ["faqs", "0", "id"] =
      some (.string "id-1") := rfl
  have hstays := an_id_stays_unless_it_is_given_before hread List.mem_cons_self haddressable hitems
    (by decide) (by decide)
  refine ⟨hread, List.mem_cons_self, haddressable, hitems, hfirst, hstays.1.2 ?_⟩
  intro other hother
  obtain rfl := List.mem_singleton.1 hother
  exact fun hgiven => absurd (hfirst.symm.trans hgiven) (by decide)

/-- The first question gets the id that the second one has. -/
theorem an_id_does_not_always_stay :
    ¬ ∀ (raw : Node) (n : Normalization) (r : IdRule) (t : Node)
      (before after : List (Path × Node)) (item : Path × Node),
      read raw = .ok (some n) → r ∈ n.idRules → t.Addressable →
      r.items t = before ++ item :: after → r.readId item ≠ "" →
      (∀ other ∈ before ++ after, r.readId other ≠ r.readId item) →
      (applyIdRule t r).getAt (item.1 ++ [r.idKey]) = t.getAt (item.1 ++ [r.idKey]) := by
  intro hall
  have hstays := hall pairRules.toNode pairRules pairRule (questionPair "id-1")
    [(["faqs", "0"], .object [])] [] (["faqs", "1"], .object [("id", .string "id-1")]) rfl
    List.mem_cons_self (addressable_questionPair "id-1") rfl (by decide) (by decide)
  have hgiven : (applyIdRule (questionPair "id-1") pairRule).getAt ["faqs", "1", "id"] =
      some (.string "id-1-2") := rfl
  exact absurd (hgiven.symm.trans hstays) (by decide)

end Normalization

end WidgetSchema
