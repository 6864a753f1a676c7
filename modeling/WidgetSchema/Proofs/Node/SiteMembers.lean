-- What a site holds. A change elsewhere brings nothing to a site, it only takes away: where a
-- value gives way to a scalar, the objects below it go.
import WidgetSchema.Proofs.Node.Sites
namespace WidgetSchema.Node

/-! ## The members at a site -/

/-- The members with a name, of all objects that the steps lead to. -/
def membersAt (key : String) : List Step → Node → List (Option Node)
  | [], t => (t.object?.map (Members.get? key)).toList
  | .member k :: steps, t => ((t.member? k).map (membersAt key steps)).getD []
  | .items :: steps, t => (t.array?.getD []).flatMap (membersAt key steps)

theorem membersAt_of_isScalar {t : Node} (h : t.isScalar = true) (key : String)
    (steps : List Step) : membersAt key steps t = [] := by
  cases t with
  | object _ => simp [isScalar, isObject] at h
  | array _ => simp [isScalar, isArray] at h
  | _ => cases steps with
    | nil => rfl
    | cons step steps => cases step <;> rfl

theorem membersAt_member {key k : String} {steps : List Step} {members : Members Node} {x : Node}
    (h : Members.get? k members = some x) :
    membersAt key (.member k :: steps) (object members) = membersAt key steps x := by
  have hmember : (object members).member? k = some x := h
  rw [membersAt, hmember]
  rfl

theorem membersAt_member_of_get? {key k : String} {steps : List Step} {members : Members Node}
    (h : Members.get? k members = none) :
    membersAt key (.member k :: steps) (object members) = [] := by
  have hmember : (object members).member? k = none := h
  rw [membersAt, hmember]
  rfl

theorem membersAt_items (key : String) (steps : List Step) (xs : List Node) :
    membersAt key (.items :: steps) (array xs) = xs.flatMap (membersAt key steps) := rfl

/-- After a repair its site holds what the repair has put there. -/
theorem membersAt_mapAt_setMember (key : String) (g : Option Node → Node) (steps : List Step)
    (t : Node) :
    membersAt key steps (mapAt (setMember key g) steps t) =
      (membersAt key steps t).map fun m => some (g m) := by
  induction steps generalizing t with
  | nil =>
    cases t with
    | object members =>
      have hget : Members.get? key (Members.set key (g (Members.get? key members)) members) =
          some (g (Members.get? key members)) := Members.get?_set _ _ _
      exact congrArg (fun m => [m]) hget
    | _ => rfl
  | cons step steps ih =>
    cases step with
    | member k =>
      cases t with
      | object members =>
        rcases hx : Members.get? k members with _ | x
        · rw [mapAt, overMember_of_get? hx, membersAt_member_of_get? hx]
          rfl
        · rw [mapAt, overMember_object hx, membersAt_member (Members.get?_set _ _ _),
            membersAt_member hx, ih]
      | _ => rfl
    | items =>
      cases t with
      | array xs =>
        rw [mapAt, overItems, membersAt_items, membersAt_items, List.flatMap_map,
          List.map_flatMap]
        exact List.flatMap_congr fun x _ => ih x
      | _ => rfl

/-- A repair that finds everything as it would put it changes nothing. -/
theorem mapAt_setMember_eq_self {key : String} {g : Option Node → Node} {steps : List Step}
    {t : Node} (h : ∀ m ∈ membersAt key steps t, m = some (g m)) :
    mapAt (setMember key g) steps t = t := by
  induction steps generalizing t with
  | nil =>
    cases t with
    | object members =>
      have hget : Members.get? key members = some (g (Members.get? key members)) :=
        h _ (List.mem_singleton_self _)
      exact congrArg object (Members.set_of_get? hget)
    | _ => rfl
  | cons step steps ih =>
    cases step with
    | member k =>
      cases t with
      | object members =>
        rcases hx : Members.get? k members with _ | x
        · exact overMember_of_get? hx _
        · rw [membersAt_member hx] at h
          rw [mapAt, overMember_object hx, ih h, Members.set_of_get? hx]
      | _ => rfl
    | items =>
      cases t with
      | array xs =>
        rw [membersAt_items] at h
        have hmap : xs.map (mapAt (setMember key g) steps) = xs.map id :=
          List.map_congr_left fun x hx => ih fun m hm => h m (List.mem_flatMap_of_mem hx hm)
        exact congrArg array (hmap.trans (List.map_id xs))
      | _ => rfl

/-! ## Changes that differ from object to object -/

/-- A tree before and after some of the members at a site became other scalars. -/
inductive ChangedAt (key : String) : List Step → Node → Node → Prop
  | same (steps : List Step) (t : Node) : ChangedAt key steps t t
  | here (members : Members Node) {v : Node} (scalar : v.isScalar = true) :
      ChangedAt key [] (object members) (object (Members.set key v members))
  | member {k : String} {steps : List Step} {members : Members Node} {x y : Node}
      (at_key : Members.get? k members = some x) (below : ChangedAt key steps x y) :
      ChangedAt key (.member k :: steps) (object members) (object (Members.set k y members))
  | items {steps : List Step} {xs ys : List Node} (length : xs.length = ys.length)
      (item : ∀ i (hx : i < xs.length) (hy : i < ys.length), ChangedAt key steps xs[i] ys[i]) :
      ChangedAt key (.items :: steps) (array xs) (array ys)

namespace ChangedAt

variable {key key' : String} {steps steps' : List Step} {t u : Node}

theorem eq_of_isScalar (h : ChangedAt key steps t u) (ht : t.isScalar = true) : u = t := by
  cases h with
  | same => rfl
  | here => simp [isScalar, isObject] at ht
  | member => simp [isScalar, isObject] at ht
  | items => simp [isScalar, isArray] at ht

/-- What sets of members hold, item by item. -/
theorem flatMap_sublist {f : Node → List (Option Node)} {xs ys : List Node}
    (length : xs.length = ys.length)
    (h : ∀ i (hx : i < xs.length) (hy : i < ys.length), (f ys[i]).Sublist (f xs[i])) :
    (ys.flatMap f).Sublist (xs.flatMap f) := by
  induction xs generalizing ys with
  | nil =>
    cases ys with
    | nil => exact List.Sublist.refl _
    | cons y ys => cases length
  | cons x xs ih =>
    cases ys with
    | nil => cases length
    | cons y ys =>
      have hfirst := h 0 (Nat.succ_pos _) (Nat.succ_pos _)
      have hrest := ih (Nat.succ.inj length) fun i hx hy =>
        h (i + 1) (Nat.succ_lt_succ hx) (Nat.succ_lt_succ hy)
      rw [List.flatMap_cons, List.flatMap_cons]
      exact hfirst.append hrest

theorem membersAt_set_of_ne {k : String} {members : Members Node} {v : Node}
    (hnil : steps = [] → key ≠ k) (hcons : ∀ rest, steps ≠ .member k :: rest) :
    membersAt key steps (object (Members.set k v members)) =
      membersAt key steps (object members) := by
  cases steps with
  | nil =>
    have hget : Members.get? key (Members.set k v members) = Members.get? key members :=
      Members.get?_set_ne (hnil rfl) v members
    exact congrArg (fun m => [m]) hget
  | cons step steps =>
    cases step with
    | member k' =>
      have hne : k' ≠ k := fun hk => hcons steps (hk ▸ rfl)
      have hget := Members.get?_set_ne hne v members
      rcases hx : Members.get? k' members with _ | x
      · rw [membersAt_member_of_get? hx, membersAt_member_of_get? (hget.trans hx)]
      · rw [membersAt_member hx, membersAt_member (hget.trans hx)]
    | items => rfl

/-- A change elsewhere brings nothing to a site. It may take objects away, and with them what
they hold at the site. -/
theorem membersAt_sublist (h : ChangedAt key' steps' t u) (hne : steps = steps' → key ≠ key')
    (hs : ∀ m ∈ membersAt key steps t, ∃ v : Node, m = some v ∧ v.isScalar = true) :
    (membersAt key steps u).Sublist (membersAt key steps t) := by
  induction h generalizing steps with
  | same => exact List.Sublist.refl _
  | here members scalar =>
    by_cases hbelow : ∃ rest, steps = .member key' :: rest
    · obtain ⟨rest, rfl⟩ := hbelow
      rw [membersAt_member (Members.get?_set _ _ _), membersAt_of_isScalar scalar]
      exact List.nil_sublist _
    · rw [membersAt_set_of_ne hne fun rest heq => hbelow ⟨rest, heq⟩]
  | @member k rest members x y at_key below ih =>
    by_cases hbelow : ∃ steps', steps = .member k :: steps'
    · obtain ⟨steps', rfl⟩ := hbelow
      rw [membersAt_member at_key] at hs ⊢
      rw [membersAt_member (Members.get?_set _ _ _)]
      exact ih (fun heq => hne (heq ▸ rfl)) hs
    · by_cases hhere : steps = [] ∧ key = k
      · obtain ⟨rfl, rfl⟩ := hhere
        obtain ⟨v, hv, hscalar⟩ := hs (some x) (at_key ▸ List.mem_singleton_self _)
        obtain rfl : x = v := Option.some.inj hv
        rw [below.eq_of_isScalar hscalar, Members.set_of_get? at_key]
      · rw [membersAt_set_of_ne (fun hnil hk => hhere ⟨hnil, hk⟩)
          fun rest heq => hbelow ⟨rest, heq⟩]
  | @items rest xs ys length item ih =>
    cases steps with
    | nil => exact List.Sublist.refl _
    | cons step steps =>
      cases step with
      | member k => exact List.Sublist.refl _
      | items =>
        refine flatMap_sublist length fun i hx hy => ih i hx hy ?_ ?_
        · exact fun heq => hne (heq ▸ rfl)
        · exact fun m hm => hs m (List.mem_flatMap_of_mem (List.getElem_mem hx) hm)

/-- A repair does not see a change at its own site, where it has one answer to all members. -/
theorem mapAt_setMember_eq {g : Option Node → Node} {v : Node} (h : ChangedAt key steps t u)
    (ht : ∀ m ∈ membersAt key steps t, g m = v) (hu : ∀ m ∈ membersAt key steps u, g m = v) :
    mapAt (setMember key g) steps u = mapAt (setMember key g) steps t := by
  induction h with
  | same => rfl
  | here members scalar =>
    have hold : g (Members.get? key members) = v := ht _ (List.mem_singleton_self _)
    have hnew := hu _ (List.mem_singleton_self _)
    simp only [mapAt, setMember, Members.set_set]
    rw [hold, hnew]
  | @member k rest members x y at_key below ih =>
    rw [membersAt_member at_key] at ht
    rw [membersAt_member (Members.get?_set _ _ _)] at hu
    rw [mapAt, overMember_object at_key, overMember_object (Members.get?_set _ _ _),
      Members.set_set, ih ht hu]
  | @items rest xs ys length item ih =>
    refine congrArg array (List.ext_getElem (by simp [length]) fun i hi hi' => ?_)
    rw [List.getElem_map, List.getElem_map]
    have hx : i < xs.length := by simpa using hi'
    have hy : i < ys.length := by simpa using hi
    exact ih i hx hy (fun m hm => ht m (List.mem_flatMap_of_mem (List.getElem_mem hx) hm))
      fun m hm => hu m (List.mem_flatMap_of_mem (List.getElem_mem hy) hm)

end ChangedAt

/-- A repair is a change. -/
theorem changedAt_mapAt_setMember {key : String} {g : Option Node → Node} (hg : IsRepair g)
    (steps : List Step) (t : Node) :
    ChangedAt key steps t (mapAt (setMember key g) steps t) := by
  induction steps generalizing t with
  | nil =>
    cases t with
    | object members => exact .here members (hg.scalar _)
    | _ => exact .same _ _
  | cons step steps ih =>
    cases step with
    | member k =>
      cases t with
      | object members =>
        rcases hx : Members.get? k members with _ | x
        · rw [mapAt, overMember_of_get? hx]
          exact .same _ _
        · rw [mapAt, overMember_object hx]
          exact .member hx (ih x)
      | _ => exact .same _ _
    | items =>
      cases t with
      | array xs =>
        refine .items (List.length_map _).symm fun i hx hy => ?_
        rw [List.getElem_map]
        exact ih xs[i]
      | _ => exact .same _ _

end WidgetSchema.Node
