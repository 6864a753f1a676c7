-- What steps lead to, before and after a change at a site. The change makes no ways and takes none
-- away, so the steps lead to the same places as before. There is a difference in the members at
-- the site only: without them, the tree before and the tree after are one tree.
import WidgetSchema.Proofs.Node.Visit
namespace WidgetSchema

/-! ## Taking a member away -/

namespace Members

variable {α : Type} {key : String}

theorem has_cons_eq_false_iff {m : String × α} {ms : Members α} :
    has key (m :: ms) = false ↔ m.1 ≠ key ∧ has key ms = false := by
  by_cases hm : m.1 = key <;> simp [has, get?, hm]

theorem erase_of_has {ms : Members α} (h : has key ms = false) : erase key ms = ms := by
  induction ms with
  | nil => rfl
  | cons m ms ih =>
    obtain ⟨hm, hrest⟩ := has_cons_eq_false_iff.1 h
    rw [erase, if_neg hm, ih hrest]

theorem erase_replace (value : α) (ms : Members α) :
    erase key (replace key value ms) = erase key ms := by
  induction ms with
  | nil => rfl
  | cons m ms ih => by_cases hm : m.1 = key <;> simp [replace, erase, hm, ih]

theorem erase_insert {ms : Members α} (h : has key ms = false) (value : α) :
    erase key (insert key value ms) = ms := by
  induction ms with
  | nil => simp [insert, erase]
  | cons m ms ih =>
    obtain ⟨hm, hrest⟩ := has_cons_eq_false_iff.1 h
    rw [insert]
    split
    · simp [erase]
    · rw [erase, if_neg hm, ih hrest]

/-- A member that goes takes with it what was set. -/
theorem erase_set (value : α) (ms : Members α) : erase key (set key value ms) = erase key ms := by
  unfold set
  by_cases h : has key ms = true
  · rw [if_pos h, erase_replace]
  · have h : has key ms = false := by simpa using h
    rw [if_neg (by simp [h]), erase_insert h, erase_of_has h]

end Members

namespace Node

variable {key : String} {steps : List Step}

/-! ## The tree around a site -/

def eraseMember (key : String) : Node → Node
  | object members => object (Members.erase key members)
  | t => t

/-- The tree without the members at a site. -/
def without (s : Site) (t : Node) : Node := mapAt (eraseMember s.key) s.steps t

theorem ChangedAt.mapAt_eraseMember {t u : Node} (h : ChangedAt key steps t u) :
    mapAt (eraseMember key) steps u = mapAt (eraseMember key) steps t := by
  induction h with
  | same => rfl
  | here members scalar => exact congrArg object (Members.erase_set _ members)
  | member at_key below ih =>
    rw [mapAt, overMember_object at_key, overMember_object (Members.get?_set _ _ _),
      Members.set_set, ih]
  | @items rest xs ys length item ih =>
    refine congrArg array (List.ext_getElem (by simp [length]) fun i hi hi' => ?_)
    rw [List.getElem_map, List.getElem_map]
    exact ih i (by simpa using hi') (by simpa using hi)

/-- A change at a site leaves the tree around it as it was. -/
theorem ChangedAt.without_eq {s : Site} {t u : Node} (h : ChangedAt s.key s.steps t u) :
    u.without s = t.without s :=
  h.mapAt_eraseMember

/-! ## Places -/

theorem places_member {k : String} {members : Members Node} {x : Node}
    (h : Members.get? k members = some x) :
    places (.member k :: steps) (object members) =
      (places steps x).map (Prod.map (k :: ·) id) := by
  have hmember : (object members).member? k = some x := h
  rw [places, hmember, Option.toList_some, List.flatMap_singleton]

theorem places_member_of_get? {k : String} {members : Members Node}
    (h : Members.get? k members = none) : places (.member k :: steps) (object members) = [] := by
  have hmember : (object members).member? k = none := h
  rw [places, hmember, Option.toList_none, List.flatMap_nil]

theorem places_items (xs : List Node) :
    places (.items :: steps) (array xs) = xs.zipIdx.flatMap fun (x, i) =>
      (places steps x).map (Prod.map (toString i :: ·) id) := rfl

theorem places_append (steps rest : List Step) (t : Node) :
    places (steps ++ rest) t = placesBelow (places rest) steps t := by
  induction steps generalizing t with
  | nil => exact (placesBelow_nil _ t).symm
  | cons step steps ih =>
    cases step with
    | member k =>
      rw [placesBelow, List.cons_append, places, places, List.flatMap_assoc]
      refine List.flatMap_congr fun x _ => ?_
      rw [placesBelow_prefixed, ih]
      rfl
    | items =>
      rw [placesBelow, List.cons_append, places, places, List.flatMap_assoc]
      refine List.flatMap_congr fun item _ => ?_
      rw [placesBelow_prefixed]
      exact congrArg _ (ih item.1)

/-- A place holds what is listed for it. -/
theorem getAt_of_mem_places {t x : Node} {p : Path} (ht : t.Addressable)
    (h : (p, x) ∈ places steps t) : t.getAt p = some x := by
  induction steps generalizing t p with
  | nil =>
    obtain ⟨rfl, rfl⟩ := Prod.mk.inj (List.mem_singleton.1 h)
    rfl
  | cons step steps ih =>
    cases step with
    | member k =>
      cases t with
      | object members =>
        rcases hy : Members.get? k members with _ | y
        · rw [places_member_of_get? hy] at h
          exact (List.not_mem_nil h).elim
        · rw [places_member hy] at h
          obtain ⟨⟨q, z⟩, hq, heq⟩ := List.mem_map.1 h
          obtain ⟨rfl, rfl⟩ := Prod.mk.inj heq
          exact (congrArg (Option.bind · _) hy).trans (ih (ht.of_get? hy) hq)
      | _ => exact (List.not_mem_nil h).elim
    | items =>
      cases t with
      | array xs =>
        obtain ⟨hlength, hitems⟩ := addressable_array_iff.1 ht
        rw [places_items] at h
        obtain ⟨⟨y, i⟩, hy, h⟩ := List.mem_flatMap.1 h
        obtain ⟨⟨q, z⟩, hq, heq⟩ := List.mem_map.1 h
        obtain ⟨rfl, rfl⟩ := Prod.mk.inj heq
        have hi : xs[i]? = some y := List.mem_zipIdx_iff_getElem?.1 hy
        obtain ⟨hlt, hget⟩ := List.getElem?_eq_some_iff.1 hi
        have hchild : (array xs).child? (toString i) = some y :=
          (child?_toString (Nat.lt_of_lt_of_le hlt hlength) xs).trans hi
        exact (congrArg (Option.bind · _) hchild).trans
          (ih (hitems y (hget ▸ List.getElem_mem hlt)) hq)
      | _ => exact (List.not_mem_nil h).elim

theorem getAt_member_of_mem_places {t x : Node} {p : Path} (ht : t.Addressable)
    (h : (p, x) ∈ places steps t) (hx : x.isObject = true) (key : String) :
    t.getAt (p ++ [key]) = x.member? key := by
  rw [getAt_append, getAt_of_mem_places ht h, Option.bind_some, getAt_cons]
  cases x with
  | object members => exact Option.bind_fun_some _
  | _ => cases hx

/-- A change of every value that steps lead to is seen at the places of these values. -/
theorem places_mapAt (f : Node → Node) (steps : List Step) (t : Node) :
    places steps (mapAt f steps t) = (places steps t).map (Prod.map id f) := by
  induction steps generalizing t with
  | nil => rfl
  | cons step steps ih =>
    cases step with
    | member k =>
      cases t with
      | object members =>
        rcases hx : Members.get? k members with _ | x
        · rw [mapAt, overMember_of_get? hx, places_member_of_get? hx, List.map_nil]
        · rw [mapAt, overMember_object hx, places_member (Members.get?_set _ _ _),
            places_member hx, ih, List.map_map, List.map_map]
          rfl
      | _ => rfl
    | items =>
      cases t with
      | array xs =>
        rw [mapAt, overItems, places_items, places_items, List.zipIdx_map, List.flatMap_map,
          List.map_flatMap]
        refine List.flatMap_congr fun item _ => ?_
        rw [List.map_map]
        exact (congrArg _ (ih item.1)).trans (by rw [List.map_map]; rfl)
      | _ => rfl

/-- The members at a site are those of the objects that its steps lead to. -/
theorem membersAt_eq_places (key : String) (steps : List Step) (t : Node) :
    membersAt key steps t =
      (places steps t).flatMap fun place => membersAt key [] place.2 := by
  have hprefixed (k : String) (ps : List (Path × Node)) :
      ((ps.map (Prod.map (k :: ·) id)).flatMap fun place => membersAt key [] place.2) =
        ps.flatMap fun place => membersAt key [] place.2 := List.flatMap_map _ _ _
  induction steps generalizing t with
  | nil => exact (List.flatMap_singleton _ _).symm
  | cons step steps ih =>
    cases step with
    | member k =>
      cases t with
      | object members =>
        rcases hx : Members.get? k members with _ | x
        · rw [membersAt_member_of_get? hx, places_member_of_get? hx, List.flatMap_nil]
        · rw [membersAt_member hx, places_member hx, hprefixed, ih]
      | _ => rfl
    | items =>
      cases t with
      | array xs =>
        rw [membersAt_items, places_items, List.flatMap_assoc]
        have hitem : ∀ item ∈ xs.zipIdx, membersAt key steps item.1 =
            ((places steps item.1).map (Prod.map (toString item.2 :: ·) id)).flatMap
              fun place => membersAt key [] place.2 :=
          fun item _ => (ih item.1).trans (hprefixed _ _).symm
        rw [← List.flatMap_congr hitem, ← List.flatMap_map Prod.fst (membersAt key steps),
          List.zipIdx_map_fst]
      | _ => rfl

/-! ## From place to place -/

section Pass

variable {σ : Type} {step : Node → σ → Node → σ → Prop} {s s' : σ} {ps qs : List (Path × Node)}

/-- Places one after another, with what they hold before and after a step at each of them. What is
known after one step is known at the next. -/
inductive Pass (step : Node → σ → Node → σ → Prop) :
    σ → List (Path × Node) → List (Path × Node) → σ → Prop
  | done (s : σ) : Pass step s [] [] s
  | next {s s₁ s' : σ} {p : Path} {x y : Node} {ps qs : List (Path × Node)}
      (here : step x s y s₁) (rest : Pass step s₁ ps qs s') :
      Pass step s ((p, x) :: ps) ((p, y) :: qs) s'

namespace Pass

theorem append {s'' : σ} {ps' qs' : List (Path × Node)} (h : Pass step s ps qs s')
    (h' : Pass step s' ps' qs' s'') : Pass step s (ps ++ ps') (qs ++ qs') s'' := by
  induction h with
  | done => exact h'
  | next here rest ih => exact .next here (ih h')

theorem map (h : Pass step s ps qs s') (f : Path → Path) :
    Pass step s (ps.map (Prod.map f id)) (qs.map (Prod.map f id)) s' := by
  induction h with
  | done => exact .done _
  | next here rest ih => exact .next here ih

/-- A pass through two lists is a pass through the first, followed by one through the second. -/
theorem exists_of_append {ps' : List (Path × Node)} (h : Pass step s (ps ++ ps') qs s') :
    ∃ s₁ qs₁ qs₂, qs = qs₁ ++ qs₂ ∧ Pass step s ps qs₁ s₁ ∧ Pass step s₁ ps' qs₂ s' := by
  induction ps generalizing s qs with
  | nil => exact ⟨s, [], qs, rfl, .done s, h⟩
  | cons p ps ih =>
    cases h with
    | next here rest =>
      obtain ⟨s₁, qs₁, qs₂, rfl, hfirst, hsecond⟩ := ih rest
      exact ⟨s₁, _ :: qs₁, qs₂, rfl, .next here hfirst, hsecond⟩

/-- A pass whose steps do nothing to some values is a pass through the others. -/
theorem filter (h : Pass step s ps qs s') (keep : Node → Bool)
    (hkeep : ∀ x s y s', step x s y s' → keep y = keep x)
    (hskip : ∀ x s y s', step x s y s' → keep x = false → s' = s) :
    Pass step s (ps.filter fun place => keep place.2) (qs.filter fun place => keep place.2) s' := by
  induction h with
  | done => exact .done _
  | @next s s₁ s' p x y ps qs here rest ih =>
    have hy := hkeep x s y s₁ here
    rcases hx : keep x with _ | _
    · simp only [List.filter_cons, hy, hx, Bool.false_eq_true, if_false]
      exact hskip x s y s₁ here hx ▸ ih
    · simp only [List.filter_cons, hy, hx, if_true]
      exact .next here ih

/-- Both lists of a pass are lists of the same places. -/
theorem map_fst (h : Pass step s ps qs s') : qs.map (·.1) = ps.map (·.1) := by
  induction h with
  | done => rfl
  | next here rest ih => rw [List.map_cons, List.map_cons, ih]

theorem exists_of_mem (h : Pass step s ps qs s') {place : Path × Node} (hplace : place ∈ ps) :
    ∃ y s₁ s₂, (place.1, y) ∈ qs ∧ step place.2 s₁ y s₂ := by
  induction h with
  | done => exact (List.not_mem_nil hplace).elim
  | @next s s₁ s' p x y ps qs here rest ih =>
    rcases List.mem_cons.1 hplace with rfl | hplace
    · exact ⟨y, s, s₁, List.mem_cons_self, here⟩
    · obtain ⟨z, s₂, s₃, hz, hstep⟩ := ih hplace
      exact ⟨z, s₂, s₃, List.mem_cons_of_mem _ hz, hstep⟩

theorem exists_of_mem_after (h : Pass step s ps qs s') {place : Path × Node}
    (hplace : place ∈ qs) : ∃ x s₁ s₂, (place.1, x) ∈ ps ∧ step x s₁ place.2 s₂ := by
  induction h with
  | done => exact (List.not_mem_nil hplace).elim
  | @next s s₁ s' p x y ps qs here rest ih =>
    rcases List.mem_cons.1 hplace with rfl | hplace
    · exact ⟨x, s, s₁, List.mem_cons_self, here⟩
    · obtain ⟨z, s₂, s₃, hz, hstep⟩ := ih hplace
      exact ⟨z, s₂, s₃, List.mem_cons_of_mem _ hz, hstep⟩

end Pass

/-- A visit that goes from place to place in steps. -/
def IsPass (step : Node → σ → Node → σ → Prop) (steps : List Step) (f : Node → σ → Node × σ) :
    Prop :=
  ∀ t s, Pass step s (places steps t) (places steps (f t s).1) (f t s).2

theorem isPass_visitMember {f : Node → σ → Node × σ} (hf : IsPass step steps f) (k : String) :
    IsPass step (.member k :: steps) (visitMember k f) := by
  intro t s
  cases t with
  | object members =>
    rcases hx : Members.get? k members with _ | x
    · rw [visitMember_of_get? hx, places_member_of_get? hx]
      exact .done s
    · rw [visitMember_object hx, places_member hx, places_member (Members.get?_set _ _ _)]
      exact (hf x s).map _
  | _ => exact .done s

theorem isPass_visitItems {f : Nat → Node → σ → Node × σ} (hf : ∀ i, IsPass step steps (f i)) :
    IsPass step (.items :: steps) (visitItems f) := by
  have hlist (index : Nat) (xs : List Node) (s : σ) :
      Pass step s
        ((xs.zipIdx index).flatMap fun (x, i) =>
          (places steps x).map (Prod.map (toString i :: ·) id))
        (((visitList f index xs s).1.zipIdx index).flatMap fun (x, i) =>
          (places steps x).map (Prod.map (toString i :: ·) id))
        (visitList f index xs s).2 := by
    induction xs generalizing index s with
    | nil => exact .done s
    | cons x xs ih =>
      rw [visitList, List.zipIdx_cons, List.zipIdx_cons, List.flatMap_cons, List.flatMap_cons]
      exact ((hf index x s).map _).append (ih (index + 1) _)
  intro t s
  cases t with
  | array xs => exact hlist 0 xs s
  | _ => exact .done s

/-- If the work of a visit goes from place to place, so does the visit. -/
theorem isPass_visit {g : Node → σ → Node × σ} {rest : List Step} (hg : IsPass step rest g)
    (steps : List Step) : IsPass step (steps ++ rest) (visit g steps) := by
  induction steps with
  | nil => exact hg
  | cons next steps ih =>
    cases next with
    | member k => exact isPass_visitMember ih k
    | items => exact isPass_visitItems fun _ => ih

end Pass

end Node

end WidgetSchema
