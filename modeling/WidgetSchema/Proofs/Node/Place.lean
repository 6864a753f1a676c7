-- Writing at one place of a tree and reading at another. A write touches what lies on its way
-- and below it. Beside its way it can only do one harm: where a segment of it is no position,
-- an array that it meets becomes an object, and the items are gone.
import Mathlib.Data.List.Forall2
import WidgetSchema.Node.Path
namespace WidgetSchema

namespace Path

/-- Two segments that can lead to one place: one text, or two spellings of one position. -/
def SameStep (a b : String) : Prop := a = b ∨ ∃ i, index? a = some i ∧ index? b = some i

/-- One of two places lies on the way to the other. -/
def Comparable : Path → Path → Prop
  | a :: p, b :: q => SameStep a b ∧ Comparable p q
  | _, _ => True

instance : DecidableRel SameStep := fun a b =>
  decidable_of_iff (a = b ∨ ((index? a).isSome ∧ index? a = index? b)) <| by
    unfold SameStep
    cases index? a <;> cases index? b <;> simp [eq_comm]

instance Comparable.decide : (p q : Path) → Decidable (Comparable p q)
  | a :: p, b :: q =>
    have := Comparable.decide p q
    inferInstanceAs (Decidable (SameStep a b ∧ Comparable p q))
  | [], _ => isTrue trivial
  | _ :: _, [] => isTrue trivial

theorem comparable_nil (p : Path) : Comparable p [] := by
  cases p <;> trivial

/-- Of two comparable places one begins with a spelling of the other. -/
theorem exists_of_comparable {p q : Path} (h : Comparable p q) :
    (∃ way rest, q = way ++ rest ∧ List.Forall₂ SameStep p way) ∨
      ∃ way rest, p = way ++ rest ∧ List.Forall₂ SameStep way q := by
  induction p generalizing q with
  | nil => exact Or.inl ⟨[], q, rfl, .nil⟩
  | cons s p ih =>
    cases q with
    | nil => exact Or.inr ⟨[], s :: p, rfl, .nil⟩
    | cons r q =>
      obtain ⟨hs, hpq⟩ := h
      rcases ih hpq with ⟨way, rest, rfl, hway⟩ | ⟨way, rest, rfl, hway⟩
      · exact Or.inl ⟨r :: way, rest, rfl, .cons hs hway⟩
      · exact Or.inr ⟨s :: way, rest, rfl, .cons hs hway⟩

end Path

namespace Node

open WidgetSchema.Path (index? SameStep Comparable)

/-! ## One step -/

/-- Whether a write below a segment turns a container into an object: it is an array, and the
segment is no position. -/
def reshapedBy : Node → String → Bool
  | array _, s => (index? s).isNone
  | _, _ => false

/-- Whether two segments lead to one slot of a container. -/
def sameSlot : Node → String → String → Bool
  | array _, s, r => (index? s).isSome && index? s == index? r
  | _, s, r => s == r

theorem index?_of_reshapedBy {items : List Node} {s : String}
    (h : (array items).reshapedBy s = false) : ∃ i, index? s = some i := by
  simpa [reshapedBy, Option.isSome_iff_exists] using h

theorem sameStep_of_sameSlot {t : Node} {s r : String} (h : t.sameSlot s r = true) :
    SameStep s r := by
  cases t with
  | array items =>
    simp only [sameSlot, Bool.and_eq_true, beq_iff_eq] at h
    obtain ⟨i, hi⟩ := Option.isSome_iff_exists.1 h.1
    exact Or.inr ⟨i, hi, h.2 ▸ hi⟩
  | _ => exact Or.inl (by simpa [sameSlot] using h)

theorem child?_of_sameSlot {t : Node} {s r : String} (h : t.sameSlot s r = true) :
    t.child? s = t.child? r := by
  cases t with
  | array items =>
    simp only [sameSlot, Bool.and_eq_true, beq_iff_eq] at h
    simp only [child?, h.2]
  | _ =>
    have hs : s = r := by simpa [sameSlot] using h
    rw [hs]

theorem setAt_nil (t v : Node) : t.setAt [] v = v := by
  cases t <;> rfl

theorem setAt_array_cons (items : List Node) (s : String) (p : Path) (v : Node) :
    (array items).setAt (s :: p) v =
      (index? s).elim (object [(s, null.setAt p v)]) fun i =>
        array ((padTo items i).set i (((items[i]?).getD null).setAt p v)) := by
  rw [setAt]
  cases index? s <;> rfl

theorem setAt_object_cons (members : Members Node) (s : String) (p : Path) (v : Node) :
    (object members).setAt (s :: p) v =
      object (Members.set s (((Members.get? s members).getD null).setAt p v) members) := rfl

/-- What has no place for a child becomes an object. -/
theorem setAt_leaf_cons {t : Node} (ha : t.isArray = false) (ho : t.isObject = false) (s : String)
    (p : Path) (v : Node) : t.setAt (s :: p) v = object [(s, null.setAt p v)] := by
  cases t with
  | array items => cases ha
  | object members => cases ho
  | _ => rfl

theorem getAt_cons (t : Node) (s : String) (p : Path) :
    t.getAt (s :: p) = (t.child? s).bind fun c => c.getAt p := rfl

theorem getElem?_of_child? {items : List Node} {s : String} {x : Node}
    (h : (array items).child? s = some x) : ∃ i, index? s = some i ∧ items[i]? = some x :=
  Option.bind_eq_some_iff.1 h

/-! ## Gaps -/

/-- The check for gaps goes on below a child that is there. -/
theorem gapAt?_cons_of_child? {t c : Node} {s : String} (h : t.child? s = some c) (p : Path) :
    t.gapAt? (s :: p) = c.gapAt? p := by
  cases t with
  | array items =>
    obtain ⟨i, hi, hx⟩ := getElem?_of_child? h
    have hlt : ¬ items.length < i := Nat.not_lt_of_gt (List.getElem?_eq_some_iff.1 hx).1
    simp [gapAt?, hi, hlt, hx]
  | object members =>
    have hx : Members.get? s members = some c := h
    simp [gapAt?, hx]
  | _ => simp [child?] at h

theorem gapAt?_child {t c : Node} {s : String} {p : Path} (h : t.gapAt? (s :: p) = none)
    (hc : t.child? s = some c) : c.gapAt? p = none := by
  rw [← gapAt?_cons_of_child? hc, h]

theorem le_length_of_gapAt? {items : List Node} {s : String} {p : Path} {i : Nat}
    (h : (array items).gapAt? (s :: p) = none) (hi : index? s = some i) : i ≤ items.length := by
  apply Nat.le_of_not_lt
  intro hlt
  simp [gapAt?, hi, hlt] at h

/-- The check goes on below whatever it finds on the way. -/
theorem gapAt?_append {t x : Node} {way : Path} (h : t.getAt way = some x) (q : Path) :
    t.gapAt? (way ++ q) = x.gapAt? q := by
  induction way generalizing t with
  | nil =>
    have htx : t = x := Option.some.inj h
    rw [List.nil_append, htx]
  | cons s way ih =>
    obtain ⟨c, hc, hx⟩ := Option.bind_eq_some_iff.1 h
    rw [List.cons_append, gapAt?_cons_of_child? hc, ih hx]

/-- On the way to a value that is there, there is no gap. -/
theorem gapAt?_eq_none_of_getAt {t v : Node} {p : Path} (h : t.getAt p = some v) :
    t.gapAt? p = none := by
  have hend := gapAt?_append h []
  rw [List.append_nil] at hend
  rw [hend]
  cases v <;> rfl

/-! ## One step of a write -/

theorem getElem?_padTo_of_ne {items : List Node} {i j : Nat} (hi : i ≤ items.length)
    (hij : i ≠ j) : (padTo items i)[j]? = items[j]? := by
  unfold padTo
  by_cases hj : j < items.length
  · rw [List.getElem?_append_left hj]
  · rw [List.getElem?_append_right (by omega), List.getElem?_replicate, if_neg (by omega),
      List.getElem?_eq_none (by omega)]

theorem lt_length_padTo (items : List Node) (i : Nat) : i < (padTo items i).length := by
  simp only [padTo, List.length_append, List.length_replicate]
  omega

/-- A write goes on below the slot of its first segment, from null where nothing was. -/
theorem child?_setAt_self (t : Node) (s : String) (p : Path) (v : Node) :
    (t.setAt (s :: p) v).child? s = some (((t.child? s).getD null).setAt p v) := by
  cases t with
  | array items =>
    rcases hi : index? s with _ | i
    · simp [setAt_array_cons, hi, child?, Members.get?]
    · simp [setAt_array_cons, hi, child?, lt_length_padTo]
  | object members => simp [setAt_object_cons, child?, Members.get?_set]
  | _ =>
    rw [setAt_leaf_cons rfl rfl]
    simp [child?, Members.get?]

/-- A write leaves alone what lies below another name. -/
theorem child?_setAt_of_ne {s r : String} (hr : index? r = none) (hne : s ≠ r) (t : Node)
    (p : Path) (v : Node) : (t.setAt (s :: p) v).child? r = t.child? r := by
  cases t with
  | array items =>
    rcases hi : index? s with _ | i
    · simp [setAt_array_cons, hi, child?, hr, Members.get?, hne]
    · simp [setAt_array_cons, hi, child?, hr]
  | object members => simp [setAt_object_cons, child?, Members.get?_set_ne (Ne.symm hne)]
  | _ =>
    rw [setAt_leaf_cons rfl rfl]
    simp [child?, Members.get?, hne]

/-- Two places that part at a name do not touch, whatever stands on their common way. -/
theorem getAt_setAt_of_ne {s r : String} (hr : index? r = none) (hne : s ≠ r) (t : Node)
    (way p q : Path) (v : Node) :
    (t.setAt (way ++ s :: p) v).getAt (way ++ r :: q) = t.getAt (way ++ r :: q) := by
  induction way generalizing t with
  | nil =>
    rw [List.nil_append, List.nil_append, getAt_cons, getAt_cons, child?_setAt_of_ne hr hne]
  | cons a way ih =>
    rw [List.cons_append, List.cons_append, getAt_cons, getAt_cons, child?_setAt_self,
      Option.bind_some, ih]
    rcases t.child? a with _ | x
    · -- Nothing was there, and in what the write makes there is nothing but its own place.
      cases way <;> rfl
    · rfl

/-- What is written is read back. -/
theorem getAt_setAt_self (t : Node) (p : Path) (v : Node) : (t.setAt p v).getAt p = some v := by
  induction p generalizing t with
  | nil => rw [setAt_nil, getAt]
  | cons s p ih =>
    rw [getAt_cons, child?_setAt_self]
    exact ih _

/-- A write below an item of an array. -/
theorem setAt_array {items : List Node} {s : String} {i : Nat} {x : Node}
    (hi : index? s = some i) (hx : items[i]? = some x) (p : Path) (v : Node) :
    (array items).setAt (s :: p) v = array (items.set i (x.setAt p v)) := by
  have hlt : i < items.length := (List.getElem?_eq_some_iff.1 hx).1
  have hpad : padTo items i = items := by
    have hzero : i + 1 - items.length = 0 := by omega
    rw [padTo, hzero, List.replicate_zero, List.append_nil]
  simp [setAt_array_cons, hi, hx, hpad]

/-- A write below a member of an object. -/
theorem setAt_object {members : Members Node} {s : String} {x : Node}
    (hx : Members.get? s members = some x) (p : Path) (v : Node) :
    (object members).setAt (s :: p) v = object (Members.set s (x.setAt p v) members) := by
  rw [setAt_object_cons, hx, Option.getD_some]

theorem reshapedBy_of_child? {t x : Node} {s : String} (h : t.child? s = some x) :
    t.reshapedBy s = false := by
  cases t with
  | array items =>
    obtain ⟨i, hi, _⟩ := getElem?_of_child? h
    simp [reshapedBy, hi]
  | _ => rfl

/-- Writing what is there changes nothing. -/
theorem setAt_of_getAt {t v : Node} {p : Path} (h : t.getAt p = some v) : t.setAt p v = t := by
  induction p generalizing t with
  | nil =>
    have htv : t = v := Option.some.inj h
    rw [setAt_nil, htv]
  | cons s p ih =>
    obtain ⟨x, hx, hv⟩ := Option.bind_eq_some_iff.1 h
    cases t with
    | array items =>
      obtain ⟨i, hi, hxi⟩ := getElem?_of_child? hx
      obtain ⟨hlt, rfl⟩ := List.getElem?_eq_some_iff.1 hxi
      rw [setAt_array hi hxi, ih hv, List.set_getElem_self]
    | object members => rw [setAt_object hx, ih hv, Members.set_of_get? hx]
    | _ => simp [child?] at hx

theorem setAt_singleton (s : String) (x : Node) (p : Path) (v : Node) :
    (object [(s, x)]).setAt (s :: p) v = object [(s, x.setAt p v)] := by
  simp [setAt_object_cons, Members.get?, Members.set, Members.has, Members.replace]

/-- Of two writes at one place the later counts. What the first has made on its way, the second
finds and goes through. -/
theorem setAt_setAt (t : Node) (p : Path) (v w : Node) :
    (t.setAt p v).setAt p w = t.setAt p w := by
  induction p generalizing t with
  | nil => rw [setAt_nil, setAt_nil]
  | cons s p ih =>
    cases t with
    | array items =>
      rcases hi : index? s with _ | i
      · rw [setAt_array_cons, setAt_array_cons, hi, Option.elim_none, Option.elim_none,
          setAt_singleton, ih]
      · have hx : ((padTo items i).set i (((items[i]?).getD null).setAt p v))[i]? =
            some (((items[i]?).getD null).setAt p v) := by
          simp [lt_length_padTo]
        rw [setAt_array_cons, setAt_array_cons, hi, Option.elim_some, Option.elim_some,
          setAt_array hi hx, ih, List.set_set]
    | object members =>
      rw [setAt_object_cons members s p v, setAt_object (Members.get?_set _ _ _), ih,
        Members.set_set, setAt_object_cons]
    | _ =>
      rw [setAt_leaf_cons rfl rfl s p v, setAt_singleton, ih]
      rfl

theorem getAt_append (t : Node) (p q : Path) :
    t.getAt (p ++ q) = (t.getAt p).bind fun x => x.getAt q := by
  induction p generalizing t with
  | nil => rfl
  | cons s p ih =>
    rw [List.cons_append, getAt_cons, getAt_cons, Option.bind_assoc]
    exact Option.bind_congr fun c _ => ih c

/-- A write below a place that is there is a write in what the place holds. -/
theorem setAt_append {t x : Node} {p : Path} (h : t.getAt p = some x) (q : Path) (v : Node) :
    t.setAt (p ++ q) v = t.setAt p (x.setAt q v) := by
  induction p generalizing t with
  | nil =>
    obtain rfl : t = x := Option.some.inj h
    rw [setAt_nil, List.nil_append]
  | cons s p ih =>
    obtain ⟨y, hy, hx⟩ := Option.bind_eq_some_iff.1 h
    cases t with
    | array items =>
      obtain ⟨i, hi, hyi⟩ := getElem?_of_child? hy
      rw [List.cons_append, setAt_array hi hyi, setAt_array hi hyi, ih hx]
    | object members => rw [List.cons_append, setAt_object hy, setAt_object hy, ih hx]
    | _ => simp [child?] at hy

/-- A write that reshapes nothing changes the slot it goes through, and no other. -/
theorem child?_setAt {t : Node} {s : String} {p : Path} (hgap : t.gapAt? (s :: p) = none)
    (hk : t.reshapedBy s = false) (v : Node) (r : String) :
    (t.setAt (s :: p) v).child? r =
      if t.sameSlot s r then some (((t.child? s).getD null).setAt p v) else t.child? r := by
  cases t with
  | array items =>
    obtain ⟨i, hi⟩ := index?_of_reshapedBy hk
    have hle := le_length_of_gapAt? hgap hi
    rcases hj : index? r with _ | j
    · simp [setAt_array_cons, hi, child?, hj, sameSlot]
    · by_cases hij : i = j
      · subst hij
        simp [setAt_array_cons, hi, child?, hj, sameSlot, lt_length_padTo]
      · simp [setAt_array_cons, hi, child?, hj, sameSlot, hij, getElem?_padTo_of_ne hle hij]
  | object members =>
    by_cases hs : s = r
    · subst hs
      simp [setAt_object_cons, child?, sameSlot, Members.get?_set]
    · simp [setAt_object_cons, child?, sameSlot, hs, Members.get?_set_ne (Ne.symm hs)]
  | _ =>
    rw [setAt_leaf_cons rfl rfl]
    by_cases hs : s = r <;> simp [child?, sameSlot, Members.get?, hs]

/-- Of an array that gives way to an object only the new member is left. -/
theorem child?_setAt_of_reshapedBy {t : Node} {s : String} (hk : t.reshapedBy s = true)
    (p : Path) (v : Node) (r : String) :
    (t.setAt (s :: p) v).child? r = if s = r then some (null.setAt p v) else none := by
  cases t with
  | array items =>
    have hi : index? s = none := by simpa [reshapedBy] using hk
    simp [setAt_array_cons, hi, child?, Members.get?]
  | _ => simp [reshapedBy] at hk

/-- A write keeps an array an array and an object an object, unless it reshapes the array. -/
theorem kind_setAt {t : Node} {s : String} (hk : t.reshapedBy s = false) (p : Path) (v : Node) :
    (t.isArray = true → (t.setAt (s :: p) v).isArray = true) ∧
      (t.isObject = true → (t.setAt (s :: p) v).isObject = true) := by
  cases t with
  | array items =>
    obtain ⟨i, hi⟩ := index?_of_reshapedBy hk
    simp [setAt_array_cons, hi, isArray, isObject]
  | object members => simp [setAt_object_cons, isArray, isObject]
  | _ => simp [isArray, isObject]

/-- Below the root, a write makes no new arrays of what it meets. -/
theorem isArray_of_isArray_setAt {t v : Node} {s : String} {p : Path}
    (h : (t.setAt (s :: p) v).isArray = true) : t.isArray = true ∧ t.reshapedBy s = false := by
  cases t with
  | array items =>
    rcases hi : index? s with _ | i
    · simp [setAt_array_cons, hi, isArray] at h
    · simp [isArray, reshapedBy, hi]
  | object members => simp [setAt_object_cons, isArray] at h
  | _ =>
    rw [setAt_leaf_cons rfl rfl] at h
    cases h

theorem reshapedBy_of_isObject {t : Node} (h : t.isObject = true) (s : String) :
    t.reshapedBy s = false := by
  cases t with
  | object _ => rfl
  | _ => simp [isObject] at h

theorem eq_of_sameSlot_of_isObject {t : Node} {s r : String} (h : t.isObject = true)
    (hs : t.sameSlot s r = true) : s = r := by
  cases t with
  | object _ => simpa [sameSlot] using hs
  | _ => simp [isObject] at h

/-! ## Places beside a write -/

theorem getAt_setAt_null {p q : Path} (hpq : ¬ Comparable p q) (v : Node) :
    (null.setAt p v).getAt q = none := by
  induction p generalizing q with
  | nil => exact absurd trivial hpq
  | cons s p ih =>
    cases q with
    | nil => exact absurd (Path.comparable_nil _) hpq
    | cons r q =>
      rw [getAt_cons, child?_setAt (t := null) rfl rfl]
      by_cases hs : s = r
      · have hrest : ¬ Comparable p q := fun h => hpq ⟨Or.inl hs, h⟩
        simpa [sameSlot, hs, child?] using ih hrest
      · simp [sameSlot, hs, child?]

/-- Whether a write at `p` turns an array on the way to `q` into an object. -/
def breaksWay : Node → (p q : Path) → Bool
  | t, s :: p, r :: q =>
    t.reshapedBy s || (t.sameSlot s r && (t.child? r).any fun c => breaksWay c p q)
  | _, _, _ => false

/-- A write to a place that is there turns no array into an object. -/
theorem breaksWay_eq_false_of_getAt {t v : Node} {p : Path} (h : t.getAt p = some v) (q : Path) :
    t.breaksWay p q = false := by
  induction p generalizing t q with
  | nil => cases t <;> rfl
  | cons s p ih =>
    obtain ⟨x, hx, hv⟩ := Option.bind_eq_some_iff.1 h
    cases q with
    | nil => cases t <;> rfl
    | cons r q =>
      unfold breaksWay
      rw [reshapedBy_of_child? hx, Bool.false_or]
      by_cases hs : t.sameSlot s r = true
      · rw [← child?_of_sameSlot hs, hx, Option.any_some, ih hv, Bool.and_false]
      · rw [Bool.eq_false_iff.2 hs, Bool.false_and]

/-- A write without gaps leaves a place that is not comparable with its own as it was, or, if
an array on the way gives way, without a value. -/
theorem getAt_setAt_beside {t : Node} {p q : Path} (hpq : ¬ Comparable p q)
    (hgap : t.gapAt? p = none) (v : Node) :
    (t.setAt p v).getAt q = if t.breaksWay p q then none else t.getAt q := by
  induction p generalizing t q with
  | nil => exact absurd trivial hpq
  | cons s p ih =>
    cases q with
    | nil => exact absurd (Path.comparable_nil _) hpq
    | cons r q =>
      have hrest : SameStep s r → ¬ Comparable p q := fun hs h => hpq ⟨hs, h⟩
      rw [getAt_cons, getAt_cons]
      by_cases hk : t.reshapedBy s = true
      · rw [child?_setAt_of_reshapedBy hk]
        by_cases hs : s = r
        · rw [if_pos hs, Option.bind_some, getAt_setAt_null (hrest (Or.inl hs))]
          simp [breaksWay, hk]
        · simp [breaksWay, hk, hs]
      · rw [child?_setAt hgap (by simpa using hk)]
        by_cases hs : t.sameSlot s r = true
        · have hn := hrest (sameStep_of_sameSlot hs)
          rw [child?_of_sameSlot hs]
          rcases hc : t.child? r with _ | c
          · simp [breaksWay, hs, hc, getAt_setAt_null hn]
          · have hgapc := gapAt?_child hgap ((child?_of_sameSlot hs).trans hc)
            simpa [breaksWay, hk, hs, hc] using ih hn hgapc
        · simp [breaksWay, hk, hs]

/-- The tree after a value that is there was replaced, and nothing beside it. -/
structure Replaced (t : Node) (p : Path) (v next : Node) : Prop where
  written : next = t.setAt p v
  here : next.getAt p = some v
  beside : ∀ q, ¬ Comparable p q → next.getAt q = t.getAt q

theorem replaced_setAt {t x : Node} {p : Path} (h : t.getAt p = some x) (v : Node) :
    Replaced t p v (t.setAt p v) where
  written := rfl
  here := getAt_setAt_self t p v
  beside q hq := by
    rw [getAt_setAt_beside hq (gapAt?_eq_none_of_getAt h), breaksWay_eq_false_of_getAt h]
    rfl

theorem reshapedBy_setAt {t : Node} {s : String} (hk : t.reshapedBy s = false) (p : Path)
    (v : Node) (r : String) : (t.setAt (s :: p) v).reshapedBy r = t.reshapedBy r := by
  cases t with
  | array items =>
    obtain ⟨i, hi⟩ := index?_of_reshapedBy hk
    simp [setAt_array_cons, hi, reshapedBy]
  | _ => rfl

theorem sameSlot_setAt {t : Node} {s : String} (hk : t.reshapedBy s = false) (p : Path)
    (v : Node) (a b : String) : (t.setAt (s :: p) v).sameSlot a b = t.sameSlot a b := by
  cases t with
  | array items =>
    obtain ⟨i, hi⟩ := index?_of_reshapedBy hk
    simp [setAt_array_cons, hi, sameSlot]
  | _ => rfl

/-- As long as a place keeps its value, the same writes cost it its value. -/
theorem breaksWay_setAt {t : Node} {p q : Path} (hpq : ¬ Comparable p q)
    (hgap : t.gapAt? p = none) (hkeep : t.breaksWay p q = false)
    (hq : (t.getAt q).isSome = true) (v : Node) (other : Path) :
    (t.setAt p v).breaksWay other q = t.breaksWay other q := by
  induction p generalizing t q other with
  | nil => exact absurd trivial hpq
  | cons s p ih =>
    cases q with
    | nil => exact absurd (Path.comparable_nil _) hpq
    | cons r q =>
      cases other with
      | nil => cases t <;> rfl
      | cons o other =>
        obtain ⟨hk, hbelow⟩ := Bool.or_eq_false_iff.1 hkeep
        have hchild := child?_setAt hgap hk v r
        unfold breaksWay
        rw [reshapedBy_setAt hk, sameSlot_setAt hk]
        by_cases hs : t.sameSlot s r = true
        · rcases hc : t.child? r with _ | c
          · simp [getAt_cons, hc] at hq
          · have hcs : t.child? s = some c := (child?_of_sameSlot hs).trans hc
            rw [if_pos hs, hcs, Option.getD_some] at hchild
            have hrest := ih (fun h => hpq ⟨sameStep_of_sameSlot hs, h⟩)
              (gapAt?_child hgap hcs) (by simpa [hs, hc] using hbelow)
              (by simpa [getAt_cons, hc] using hq) other
            rw [hchild, Option.any_some, Option.any_some, hrest]
        · rw [if_neg hs] at hchild
          rw [hchild]

/-- A write cannot bring a value to a place beside it. -/
theorem getAt_setAt_eq_none {t : Node} {p q : Path} (hpq : ¬ Comparable p q)
    (hgap : t.gapAt? p = none) (hq : t.getAt q = none) (v : Node) :
    (t.setAt p v).getAt q = none := by
  rw [getAt_setAt_beside hpq hgap, hq, ite_self]

end Node

end WidgetSchema
