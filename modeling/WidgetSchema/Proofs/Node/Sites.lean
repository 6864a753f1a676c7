-- Sites: members of all the objects that a list of steps leads to, through members and through
-- all items of arrays. Changes at different sites do not get in each other's way. Where one site
-- lies below another, the upper change leaves a value without members and items, and takes the
-- lower site with it.
import WidgetSchema.Proofs.Node.Place
namespace WidgetSchema

/-- One step into a tree. -/
inductive Step where
  | member (key : String)
  /-- To all items of an array at once. -/
  | items
  deriving DecidableEq

/-- A member of the objects that steps lead to. -/
structure Site where
  steps : List Step
  key : String
  deriving DecidableEq

theorem Site.key_ne_of_ne {s s' : Site} (h : s ≠ s') (hsteps : s.steps = s'.steps) :
    s.key ≠ s'.key := by
  intro hkey
  obtain ⟨steps, key⟩ := s
  obtain ⟨steps', key'⟩ := s'
  exact h (congr (congrArg Site.mk hsteps) hkey)

namespace Node

/-- A value without members and items. -/
def isScalar (t : Node) : Bool := !t.isObject && !t.isArray

/-! ## Changes along steps -/

def overMember (key : String) (f : Node → Node) : Node → Node
  | object members =>
    match Members.get? key members with
    | some x => object (Members.set key (f x) members)
    | none => object members
  | t => t

def overItems (f : Node → Node) : Node → Node
  | array items => array (items.map f)
  | t => t

/-- The tree with a change made to every value that the steps lead to. -/
def mapAt (f : Node → Node) : List Step → Node → Node
  | [] => f
  | .member key :: steps => overMember key (mapAt f steps)
  | .items :: steps => overItems (mapAt f steps)

/-- An object with a member made anew from what it was. -/
def setMember (key : String) (g : Option Node → Node) : Node → Node
  | object members => object (Members.set key (g (Members.get? key members)) members)
  | t => t

/-- The tree with the members at a site made anew. -/
def repair (s : Site) (g : Option Node → Node) (t : Node) : Node :=
  mapAt (setMember s.key g) s.steps t

/-! ## Scalars -/

theorem overMember_of_isScalar {t : Node} (h : t.isScalar = true) (key : String)
    (f : Node → Node) : overMember key f t = t := by
  cases t with
  | object _ => simp [isScalar, isObject] at h
  | _ => rfl

theorem overItems_of_isScalar {t : Node} (h : t.isScalar = true) (f : Node → Node) :
    overItems f t = t := by
  cases t with
  | array _ => simp [isScalar, isArray] at h
  | _ => rfl

theorem setMember_of_isScalar {t : Node} (h : t.isScalar = true) (key : String)
    (g : Option Node → Node) : setMember key g t = t := by
  cases t with
  | object _ => simp [isScalar, isObject] at h
  | _ => rfl

theorem mapAt_setMember_of_isScalar {t : Node} (h : t.isScalar = true) (key : String)
    (g : Option Node → Node) (steps : List Step) : mapAt (setMember key g) steps t = t := by
  cases steps with
  | nil => exact setMember_of_isScalar h key g
  | cons step steps =>
    cases step with
    | member k => exact overMember_of_isScalar h k _
    | items => exact overItems_of_isScalar h _

@[simp]
theorem isScalar_overMember (key : String) (f : Node → Node) (t : Node) :
    (overMember key f t).isScalar = t.isScalar := by
  cases t with
  | object members => cases h : Members.get? key members <;> simp [overMember, h, isScalar, isObject]
  | _ => rfl

@[simp]
theorem isScalar_mapAt_setMember (key : String) (g : Option Node → Node) (steps : List Step)
    (t : Node) : (mapAt (setMember key g) steps t).isScalar = t.isScalar := by
  cases steps with
  | nil => cases t <;> rfl
  | cons step steps =>
    cases step with
    | member k => exact isScalar_overMember k _ t
    | items => cases t <;> rfl

/-! ## One site -/

theorem overMember_object {key : String} {members : Members Node} {x : Node}
    (h : Members.get? key members = some x) (f : Node → Node) :
    overMember key f (object members) = object (Members.set key (f x) members) := by
  simp [overMember, h]

theorem overMember_of_get? {key : String} {members : Members Node}
    (h : Members.get? key members = none) (f : Node → Node) :
    overMember key f (object members) = object members := by
  simp [overMember, h]

theorem overMember_overMember (key : String) (f g : Node → Node) (t : Node) :
    overMember key g (overMember key f t) = overMember key (g ∘ f) t := by
  cases t with
  | object members =>
    rcases hx : Members.get? key members with _ | x
    · rw [overMember_of_get? hx, overMember_of_get? hx, overMember_of_get? hx]
    · rw [overMember_object hx, overMember_object (Members.get?_set _ _ _), Members.set_set,
        overMember_object hx]
      rfl
  | _ => rfl

theorem overItems_overItems (f g : Node → Node) (t : Node) :
    overItems g (overItems f t) = overItems (g ∘ f) t := by
  cases t with
  | array items => simp [overItems]
  | _ => rfl

/-- Two changes along the same steps are one change. -/
theorem mapAt_mapAt (f g : Node → Node) (steps : List Step) (t : Node) :
    mapAt g steps (mapAt f steps t) = mapAt (g ∘ f) steps t := by
  induction steps generalizing t with
  | nil => rfl
  | cons step steps ih =>
    have hfun : mapAt g steps ∘ mapAt f steps = mapAt (g ∘ f) steps := funext ih
    cases step with
    | member key => exact (overMember_overMember key _ _ t).trans (by rw [hfun]; rfl)
    | items => exact (overItems_overItems _ _ t).trans (by rw [hfun]; rfl)

theorem setMember_setMember (key : String) (f g : Option Node → Node) :
    setMember key g ∘ setMember key f = setMember key fun m => g (some (f m)) := by
  funext t
  cases t with
  | object members => simp [setMember, Members.get?_set, Members.set_set]
  | _ => rfl

/-- Two repairs of one site are one repair. -/
theorem repair_repair (s : Site) (f g : Option Node → Node) (t : Node) :
    repair s g (repair s f t) = repair s (fun m => g (some (f m))) t := by
  unfold repair
  rw [mapAt_mapAt, setMember_setMember]

/-! ## Different sites -/

/-- A repair puts a scalar in place of a member, and all that is no scalar is the same to it. -/
structure IsRepair (g : Option Node → Node) : Prop where
  scalar : ∀ m, (g m).isScalar = true
  blind : ∀ x y, x.isScalar = false → y.isScalar = false → g (some x) = g (some y)

theorem IsRepair.mapAt_setMember {g : Option Node → Node} (hg : IsRepair g) (key : String)
    (f : Option Node → Node) (steps : List Step) (x : Node) :
    g (some (mapAt (setMember key f) steps x)) = g (some x) := by
  by_cases hx : x.isScalar = true
  · rw [mapAt_setMember_of_isScalar hx]
  · refine hg.blind _ _ ?_ (by simpa using hx)
    rw [isScalar_mapAt_setMember]
    simpa using hx

theorem overMember_comm {key key' : String} (h : key ≠ key') (f f' : Node → Node) (t : Node) :
    overMember key' f' (overMember key f t) = overMember key f (overMember key' f' t) := by
  cases t with
  | object members =>
    have hget : ∀ v, Members.get? key' (Members.set key v members) = Members.get? key' members :=
      fun v => Members.get?_set_ne (Ne.symm h) v members
    have hget' : ∀ v, Members.get? key (Members.set key' v members) = Members.get? key members :=
      fun v => Members.get?_set_ne h v members
    rcases hx : Members.get? key members with _ | x
    · rcases hy : Members.get? key' members with _ | y
      · rw [overMember_of_get? hx, overMember_of_get? hy, overMember_of_get? hx]
      · rw [overMember_of_get? hx, overMember_object hy, overMember_of_get? ((hget' _).trans hx)]
    · rcases hy : Members.get? key' members with _ | y
      · rw [overMember_object hx, overMember_of_get? hy, overMember_object hx,
          overMember_of_get? ((hget _).trans hy)]
      · rw [overMember_object hx, overMember_object hy, overMember_object ((hget _).trans hy),
          overMember_object ((hget' _).trans hx), Members.set_set_comm h]
  | _ => rfl

/-- A repair of a member and a change further down: below another member they are apart, and
below the same member the repair takes the change with it. -/
theorem setMember_overMember_comm {key : String} {g : Option Node → Node} (hg : IsRepair g)
    (k key' : String) (g' : Option Node → Node) (steps : List Step) (t : Node) :
    setMember key g (overMember k (mapAt (setMember key' g') steps) t) =
      overMember k (mapAt (setMember key' g') steps) (setMember key g t) := by
  cases t with
  | object members =>
    rcases hx : Members.get? k members with _ | x
    · rw [overMember_of_get? hx]
      by_cases hk : k = key
      · subst hk
        rw [setMember, overMember_object (Members.get?_set _ _ _),
          mapAt_setMember_of_isScalar (hg.scalar _), Members.set_set]
      · rw [setMember, overMember_of_get? ((Members.get?_set_ne hk _ _).trans hx)]
    · rw [overMember_object hx]
      by_cases hk : k = key
      · subst hk
        rw [setMember, setMember, overMember_object (Members.get?_set _ _ _),
          mapAt_setMember_of_isScalar (hg.scalar _), Members.get?_set, hg.mapAt_setMember, hx,
          Members.set_set, Members.set_set]
      · rw [setMember, setMember, overMember_object ((Members.get?_set_ne hk _ _).trans hx),
          Members.get?_set_ne (Ne.symm hk), Members.set_set_comm hk]
  | _ => rfl

theorem setMember_mapAt_comm {key : String} {g : Option Node → Node} (hg : IsRepair g)
    {steps : List Step} {key' : String} (hne : steps = [] → key ≠ key') (g' : Option Node → Node)
    (t : Node) :
    setMember key g (mapAt (setMember key' g') steps t) =
      mapAt (setMember key' g') steps (setMember key g t) := by
  cases steps with
  | nil =>
    have hk : key ≠ key' := hne rfl
    cases t with
    | object members =>
      simp only [mapAt, setMember, Members.get?_set_ne hk, Members.get?_set_ne (Ne.symm hk)]
      rw [Members.set_set_comm hk]
    | _ => rfl
  | cons step steps =>
    cases step with
    | member k => exact setMember_overMember_comm hg k key' g' steps t
    | items => cases t <;> rfl

theorem overMember_overItems (key : String) (f f' : Node → Node) (t : Node) :
    overMember key f (overItems f' t) = overItems f' (overMember key f t) := by
  cases t with
  | object members =>
    cases hx : Members.get? key members <;> simp [overMember, overItems, hx]
  | _ => rfl

theorem mapAt_setMember_comm {key key' : String} {g g' : Option Node → Node} (hg : IsRepair g)
    (hg' : IsRepair g') {steps steps' : List Step} (h : steps = steps' → key ≠ key') (t : Node) :
    mapAt (setMember key' g') steps' (mapAt (setMember key g) steps t) =
      mapAt (setMember key g) steps (mapAt (setMember key' g') steps' t) := by
  induction steps generalizing steps' t with
  | nil => exact (setMember_mapAt_comm hg (fun hnil => h hnil.symm) g' t).symm
  | cons step steps ih =>
    cases steps' with
    | nil =>
      have hne : step :: steps = [] → key' ≠ key := fun hnil => nomatch hnil
      exact setMember_mapAt_comm hg' hne g t
    | cons step' steps' =>
      by_cases hstep : step = step'
      · subst hstep
        have hcomp : mapAt (setMember key' g') steps' ∘ mapAt (setMember key g) steps =
            mapAt (setMember key g) steps ∘ mapAt (setMember key' g') steps' :=
          funext fun t => ih (fun heq => h (heq ▸ rfl)) t
        cases step with
        | member k =>
          refine (overMember_overMember k _ _ t).trans ?_
          rw [hcomp]
          exact (overMember_overMember k _ _ t).symm
        | items =>
          refine (overItems_overItems _ _ t).trans ?_
          rw [hcomp]
          exact (overItems_overItems _ _ t).symm
      · cases step with
        | member k =>
          cases step' with
          | member k' => exact overMember_comm (fun hk => hstep (congrArg Step.member hk)) _ _ t
          | items => exact (overMember_overItems k _ _ t).symm
        | items =>
          cases step' with
          | items => exact absurd rfl hstep
          | member k' => exact overMember_overItems k' _ _ t

/-- Repairs of different sites may be made in either order. -/
theorem repair_comm {s s' : Site} (h : s ≠ s') {g g' : Option Node → Node} (hg : IsRepair g)
    (hg' : IsRepair g') (t : Node) :
    repair s' g' (repair s g t) = repair s g (repair s' g' t) :=
  mapAt_setMember_comm hg hg' (Site.key_ne_of_ne h) t

end Node

end WidgetSchema
