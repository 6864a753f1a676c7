-- Visiting the values that steps lead to, one after another. A pass may list the places first
-- and then work on the tree at each of them, or walk through the tree and work on each value
-- where it is. As the places lie beside each other, both come to the same tree.
import WidgetSchema.Proofs.Node.Position
import WidgetSchema.Proofs.Node.SiteMembers
namespace WidgetSchema.Node

/-! ## Positions that can be written -/

mutual

/-- Every position in a tree fits in 64 bits, so that it can be written and read again. No array
in memory is longer. -/
def Addressable : Node → Prop
  | array xs => xs.length ≤ Nat.pow 2 64 ∧ AddressableItems xs
  | object members => AddressableMembers members
  | null | bool _ | number _ | string _ => True

def AddressableItems : List Node → Prop
  | [] => True
  | x :: xs => Addressable x ∧ AddressableItems xs

def AddressableMembers : List (String × Node) → Prop
  | [] => True
  | (_, x) :: members => Addressable x ∧ AddressableMembers members

end

theorem addressableItems_iff {xs : List Node} :
    AddressableItems xs ↔ ∀ x ∈ xs, x.Addressable := by
  induction xs with
  | nil => simp [AddressableItems]
  | cons x xs ih => rw [AddressableItems, ih, List.forall_mem_cons]

theorem addressableMembers_iff {members : Members Node} :
    AddressableMembers members ↔ ∀ m ∈ members, m.2.Addressable := by
  induction members with
  | nil => simp [AddressableMembers]
  | cons m members ih => rw [AddressableMembers, ih, List.forall_mem_cons]

theorem addressable_array_iff {xs : List Node} :
    (array xs).Addressable ↔ xs.length ≤ Nat.pow 2 64 ∧ ∀ x ∈ xs, x.Addressable := by
  rw [Addressable, addressableItems_iff]

theorem addressable_object_iff {members : Members Node} :
    (object members).Addressable ↔ ∀ m ∈ members, m.2.Addressable := by
  rw [Addressable, addressableMembers_iff]

theorem addressable_of_isScalar {t : Node} (h : t.isScalar = true) : t.Addressable := by
  cases t with
  | object _ => simp [isScalar, isObject] at h
  | array _ => simp [isScalar, isArray] at h
  | _ => trivial

theorem Addressable.of_get? {members : Members Node} {key : String} {x : Node}
    (h : (object members).Addressable) (hx : Members.get? key members = some x) :
    x.Addressable :=
  addressable_object_iff.1 h _ (Members.mem_of_get? hx)

theorem Addressable.child? {t x : Node} {s : String} (h : t.Addressable)
    (hx : t.child? s = some x) : x.Addressable := by
  cases t with
  | array xs =>
    obtain ⟨i, _, hi⟩ := Option.bind_eq_some_iff.1 hx
    exact (addressable_array_iff.1 h).2 x (List.mem_of_getElem? hi)
  | object members => exact h.of_get? hx
  | _ => cases hx

theorem Addressable.set {members : Members Node} {x : Node} (h : (object members).Addressable)
    (hx : x.Addressable) (key : String) : (object (Members.set key x members)).Addressable := by
  rw [addressable_object_iff] at h ⊢
  intro m hm
  rcases Members.mem_of_mem_set hm with rfl | hm
  · exact hx
  · exact h m hm

/-- Members that become scalars leave all positions as they are. -/
theorem Addressable.of_changedAt {key : String} {steps : List Step} {t u : Node}
    (h : ChangedAt key steps t u) (ht : t.Addressable) : u.Addressable := by
  induction h with
  | same => exact ht
  | here members scalar => exact ht.set (addressable_of_isScalar scalar) key
  | member at_key below ih => exact ht.set (ih (ht.of_get? at_key)) _
  | @items rest xs ys length item ih =>
    rw [addressable_array_iff] at ht ⊢
    refine ⟨length ▸ ht.1, fun y hy => ?_⟩
    obtain ⟨i, hi, rfl⟩ := List.getElem_of_mem hy
    exact ih i (length ▸ hi) hi (ht.2 _ (List.getElem_mem _))

/-! ## Visits -/

section Visit

variable {σ : Type}

def visitMember (key : String) (f : Node → σ → Node × σ) : Node → σ → Node × σ
  | object members, s =>
    match Members.get? key members with
    | some x => (object (Members.set key (f x s).1 members), (f x s).2)
    | none => (object members, s)
  | t, s => (t, s)

def visitList (f : Nat → Node → σ → Node × σ) : (index : Nat) → List Node → σ → List Node × σ
  | _, [], s => ([], s)
  | index, x :: xs, s =>
    ((f index x s).1 :: (visitList f (index + 1) xs (f index x s).2).1,
      (visitList f (index + 1) xs (f index x s).2).2)

def visitItems (f : Nat → Node → σ → Node × σ) : Node → σ → Node × σ
  | array xs, s => (array (visitList f 0 xs s).1, (visitList f 0 xs s).2)
  | t, s => (t, s)

/-- A visit of every value that the steps lead to, in their order. What is learned at one value
is taken along to the next. -/
def visit (f : Node → σ → Node × σ) : List Step → Node → σ → Node × σ
  | [] => f
  | .member key :: steps => visitMember key (visit f steps)
  | .items :: steps => visitItems fun _ => visit f steps

theorem visitMember_object {key : String} {members : Members Node} {x : Node}
    (h : Members.get? key members = some x) (f : Node → σ → Node × σ) (s : σ) :
    visitMember key f (object members) s = (object (Members.set key (f x s).1 members), (f x s).2) := by
  simp [visitMember, h]

theorem visitMember_of_get? {key : String} {members : Members Node}
    (h : Members.get? key members = none) (f : Node → σ → Node × σ) (s : σ) :
    visitMember key f (object members) s = (object members, s) := by
  simp [visitMember, h]

/-- A visit that learns nothing is a change along the steps. -/
theorem visit_eq_mapAt (f : Node → Node) (steps : List Step) (t : Node) (s : σ) :
    visit (fun x s => (f x, s)) steps t s = (mapAt f steps t, s) := by
  induction steps generalizing t s with
  | nil => rfl
  | cons step steps ih =>
    cases step with
    | member key =>
      cases t with
      | object members =>
        rcases hx : Members.get? key members with _ | x
        · rw [visit, mapAt, visitMember_of_get? hx, overMember_of_get? hx]
        · rw [visit, mapAt, visitMember_object hx, overMember_object hx, ih]
      | _ => rfl
    | items =>
      cases t with
      | array xs =>
        have hlist (index : Nat) : visitList (fun _ => visit (fun x s => (f x, s)) steps) index xs s =
            (xs.map (mapAt f steps), s) := by
          induction xs generalizing index with
          | nil => rfl
          | cons x xs ihxs => rw [visitList, ih, ihxs, List.map_cons]
        rw [visit, visitItems, hlist]
        rfl
      | _ => rfl

/-! ## Lists of places -/

/-- The places that steps lead to, with what they hold. -/
def places : List Step → Node → List (Path × Node)
  | [], t => [([], t)]
  | .member key :: steps, t =>
    (t.member? key).toList.flatMap fun x => (places steps x).map (Prod.map (key :: ·) id)
  | .items :: steps, t =>
    (t.array?.getD []).zipIdx.flatMap fun (x, i) =>
      (places steps x).map (Prod.map (toString i :: ·) id)

variable {β : Type}

/-- Work at a place that does the same to a tree as to the part of it that holds the place. -/
def IsLocal (work : Node × σ → Path × β → Node × σ) : Prop :=
  ∀ (t x : Node) (b : β) (s : σ) (p q : Path), t.getAt p = some x →
    work (t, s) (p ++ q, b) = (t.setAt p (work (x, s) (q, b)).1, (work (x, s) (q, b)).2)

variable {work : Node × σ → Path × β → Node × σ}

theorem foldl_prefixed (hwork : IsLocal work) (p : Path) (ps : List (Path × β)) {t x : Node}
    (hx : t.getAt p = some x) (s : σ) :
    (ps.map (Prod.map (p ++ ·) id)).foldl work (t, s) =
      (t.setAt p (ps.foldl work (x, s)).1, (ps.foldl work (x, s)).2) := by
  induction ps generalizing t x s with
  | nil => exact congrArg (·, s) (setAt_of_getAt hx).symm
  | cons q ps ih =>
    obtain ⟨q, b⟩ := q
    rw [List.map_cons, List.foldl_cons, List.foldl_cons]
    have hfirst : work (t, s) (Prod.map (p ++ ·) id (q, b)) = _ := hwork t x b s p q hx
    rw [hfirst, ih (getAt_setAt_self _ _ _), setAt_setAt]

theorem getAt_item {done rest : List Node} {x : Node} (h : done.length < Nat.pow 2 64) :
    (array (done ++ x :: rest)).getAt [toString done.length] = some x := by
  rw [getAt_cons, child?_toString h]
  simp [getAt]

theorem setAt_item {done rest : List Node} {x : Node} (h : done.length < Nat.pow 2 64) (y : Node) :
    (array (done ++ x :: rest)).setAt [toString done.length] y = array (done ++ y :: rest) := by
  have hx : (done ++ x :: rest)[done.length]? = some x := by simp
  rw [setAt_array (Path.index?_toString h) hx, setAt_nil]
  simp

/-- Work below all items of an array is done item by item. -/
theorem foldl_items {f : Nat → Node → σ → Node × σ} {below : Nat → Node → List (Path × β)}
    (hwork : IsLocal work) {done rest : List Node} (hlength : (done ++ rest).length ≤ Nat.pow 2 64)
    (hitem : ∀ i, ∀ x ∈ rest, ∀ s, (below i x).foldl work (x, s) = f i x s) (s : σ) :
    ((rest.zipIdx done.length).flatMap fun (x, i) =>
        (below i x).map (Prod.map (toString i :: ·) id)).foldl work (array (done ++ rest), s) =
      (array (done ++ (visitList f done.length rest s).1), (visitList f done.length rest s).2) := by
  -- The items before the one that is worked on are done, and their number is its position.
  induction rest generalizing done s with
  | nil => rfl
  | cons x rest ih =>
    have hpos : done.length < Nat.pow 2 64 := by
      rw [List.length_append, List.length_cons] at hlength
      omega
    have hget : (array (done ++ x :: rest)).getAt [toString done.length] = some x :=
      getAt_item hpos
    have hfirst := foldl_prefixed hwork [toString done.length] (below done.length x) hget s
    rw [hitem _ x List.mem_cons_self, setAt_item hpos] at hfirst
    have hmore : (done ++ [(f done.length x s).1]).length = done.length + 1 := by simp
    have hdone : (done ++ [(f done.length x s).1] ++ rest).length ≤ Nat.pow 2 64 := by
      simpa using hlength
    have hrest := ih hdone (fun i y hy => hitem i y (List.mem_cons_of_mem _ hy))
      (f done.length x s).2
    rw [List.append_assoc, List.append_assoc, hmore] at hrest
    rw [List.zipIdx_cons, List.flatMap_cons, List.foldl_append]
    exact (congrArg (List.foldl work · _) hfirst).trans hrest

/-- What is listed below each of the places that steps lead to. -/
def placesBelow (below : Node → List (Path × β)) (steps : List Step) (t : Node) :
    List (Path × β) :=
  (places steps t).flatMap fun place => (below place.2).map (Prod.map (place.1 ++ ·) id)

theorem placesBelow_nil (below : Node → List (Path × β)) (t : Node) :
    placesBelow below [] t = below t :=
  (List.flatMap_singleton _ _).trans (List.map_id _)

theorem placesBelow_prefixed (below : Node → List (Path × β)) (segment : String)
    (ps : List (Path × Node)) :
    ((ps.map (Prod.map (segment :: ·) id)).flatMap fun place =>
        (below place.2).map (Prod.map (place.1 ++ ·) id)) =
      (ps.flatMap fun place => (below place.2).map (Prod.map (place.1 ++ ·) id)).map
        (Prod.map (segment :: ·) id) := by
  rw [List.flatMap_map, List.map_flatMap]
  exact List.flatMap_congr fun place _ => by simp

/-- To work at the listed places is to visit the values there. -/
theorem foldl_placesBelow {f : Node → σ → Node × σ} {below : Node → List (Path × β)}
    (hwork : IsLocal work)
    (hbelow : ∀ x : Node, x.Addressable → ∀ s, (below x).foldl work (x, s) = f x s)
    (steps : List Step) {t : Node} (ht : t.Addressable) (s : σ) :
    (placesBelow below steps t).foldl work (t, s) = visit f steps t s := by
  induction steps generalizing t s with
  | nil =>
    rw [placesBelow_nil]
    exact hbelow t ht s
  | cons step steps ih =>
    cases step with
    | member key =>
      cases t with
      | object members =>
        rcases hx : Members.get? key members with _ | x
        · have hplaces : placesBelow below (.member key :: steps) (object members) = [] := by
            simp [placesBelow, places, member?, object?, hx]
          rw [hplaces, visit, visitMember_of_get? hx, List.foldl_nil]
        · have hplaces : placesBelow below (.member key :: steps) (object members) =
              (placesBelow below steps x).map (Prod.map ([key] ++ ·) id) := by
            have hmember : (object members).member? key = some x := hx
            rw [placesBelow, places, hmember, Option.toList_some, List.flatMap_singleton,
              placesBelow_prefixed]
            rfl
          have hget : (object members).getAt [key] = some x := by
            rw [getAt_cons]
            exact congrArg (Option.bind · fun c => c.getAt []) hx
          rw [hplaces, foldl_prefixed hwork _ _ hget, ih (ht.of_get? hx), setAt_object hx,
            setAt_nil, visit, visitMember_object hx]
      | _ => rfl
    | items =>
      cases t with
      | array xs =>
        obtain ⟨hlength, hitems⟩ := addressable_array_iff.1 ht
        have hlength : ([] ++ xs).length ≤ Nat.pow 2 64 := hlength
        have hplaces : placesBelow below (.items :: steps) (array xs) = (xs.zipIdx).flatMap
            fun (x, i) => (placesBelow below steps x).map (Prod.map (toString i :: ·) id) := by
          rw [placesBelow, places, List.flatMap_assoc]
          exact List.flatMap_congr fun item _ => placesBelow_prefixed below _ _
        rw [hplaces]
        exact foldl_items hwork hlength (fun _ x hx s => ih (hitems x hx) s) s
      | _ => rfl

/-- Work that visits what a place holds, if there is anything. -/
def workAt (f : β → Node → σ → Node × σ) (s : Node × σ) (place : Path × β) : Node × σ :=
  match s.1.getAt place.1 with
  | some x => (s.1.setAt place.1 (f place.2 x s.2).1, (f place.2 x s.2).2)
  | none => s

theorem isLocal_workAt (f : β → Node → σ → Node × σ) : IsLocal (workAt f) := by
  intro t x b s p q hx
  have hget : t.getAt (p ++ q) = x.getAt q := by rw [getAt_append, hx, Option.bind_some]
  simp only [workAt, hget]
  rcases x.getAt q with _ | y
  · exact congrArg (·, s) (setAt_of_getAt hx).symm
  · exact congrArg (·, (f b y s).2) (setAt_append hx q _)

/-- Work at all items of an array is a visit of the items. -/
theorem foldl_workAt_items (f : Nat → Node → σ → Node × σ) {t : Node} (ht : t.Addressable)
    (s : σ) :
    ((t.array?.getD []).zipIdx.map fun (_, i) => ([toString i], i)).foldl (workAt f) (t, s) =
      visitItems f t s := by
  cases t with
  | array xs =>
    have hlength : ([] ++ xs).length ≤ Nat.pow 2 64 := (addressable_array_iff.1 ht).1
    have hitem (i : Nat) (x : Node) (_ : x ∈ xs) (s : σ) :
        [([], i)].foldl (workAt f) (x, s) = f i x s := by
      simp [workAt, getAt, setAt_nil]
    have hitems := foldl_items (isLocal_workAt f) hlength hitem s
    simpa [array?, visitItems, ← List.map_eq_flatMap] using hitems
  | _ => rfl

/-- The same for work that learns nothing. -/
theorem foldl_places {change : Node → Path × Node → Node}
    (hlocal : ∀ (t x v : Node) (p q : Path), t.getAt p = some x →
      change t (p ++ q, v) = t.setAt p (change x (q, v)))
    (steps : List Step) {t : Node} (ht : t.Addressable) :
    (places steps t).foldl change t = mapAt (fun x => change x ([], x)) steps t := by
  have hwork : IsLocal fun (s : Node × Unit) place => (change s.1 place, ()) :=
    fun t x v _ p q hx => congrArg (·, ()) (hlocal t x v p q hx)
  have hplaces : placesBelow (fun x => [([], x)]) steps t = places steps t := by
    simp [placesBelow]
  have hvisit : (placesBelow (fun x => [([], x)]) steps t).foldl _ (t, ()) =
      visit (fun x s => (change x ([], x), s)) steps t () :=
    foldl_placesBelow hwork (fun _ _ _ => rfl) steps ht ()
  rw [hplaces, visit_eq_mapAt] at hvisit
  calc
    _ = ((places steps t).foldl _ (t, ())).1 :=
      @List.foldl_hom (Node × Unit) _ _ Prod.fst _ _ _ (t, ()) fun _ _ => rfl
    _ = _ := congrArg Prod.fst hvisit

end Visit

end WidgetSchema.Node
