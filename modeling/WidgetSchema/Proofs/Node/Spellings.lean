-- Texts and the places that lead to them. An array reads a position with and without leading
-- zeros, so several places can lead to one text. Of two writes at such places the later counts;
-- at all other places that hold texts, writes do not see each other.
import WidgetSchema.Proofs.Node.Place
namespace WidgetSchema.Node

open WidgetSchema.Path (index?)

variable {t x y : Node} {s r : String} {p q w : Path}

/-! ## One step -/

theorem sameSlot_of_child? (h : t.child? s = some x) : t.sameSlot s s = true := by
  cases t with
  | array items =>
    obtain ⟨i, hi, _⟩ := getElem?_of_child? h
    simp [sameSlot, hi]
  | _ => exact beq_self_eq_true s

theorem sameSlot_comm (t : Node) (s r : String) : t.sameSlot s r = t.sameSlot r s := by
  cases t with
  | array items =>
    rw [Bool.eq_iff_iff]
    simp only [sameSlot, Bool.and_eq_true, beq_iff_eq]
    exact ⟨fun h => ⟨h.2 ▸ h.1, h.2.symm⟩, fun h => ⟨h.2 ▸ h.1, h.2.symm⟩⟩
  | _ => exact Bool.beq_comm

/-- A write below a child is a write of the changed child. -/
theorem setAt_cons (h : t.child? s = some x) (p : Path) (v : Node) :
    t.setAt (s :: p) v = t.setAt [s] (x.setAt p v) :=
  setAt_append (p := [s]) (by rw [getAt_cons, h]; rfl) p v

theorem setAt_of_sameSlot (h : t.sameSlot s r = true) (v : Node) :
    t.setAt [s] v = t.setAt [r] v := by
  cases t with
  | array items =>
    simp only [sameSlot, Bool.and_eq_true, beq_iff_eq] at h
    obtain ⟨i, hi⟩ := Option.isSome_iff_exists.1 h.1
    rw [setAt_array_cons, setAt_array_cons, ← h.2, hi]
    rfl
  | _ =>
    have hs : s = r := by simpa [sameSlot] using h
    rw [hs]

/-- A child that is put in its place changes the slot it goes into, and no other. -/
theorem child?_setAt_singleton (h : t.child? s = some x) (v : Node) (r : String) :
    (t.setAt [s] v).child? r = if t.sameSlot s r then some v else t.child? r := by
  have hgap : t.gapAt? [s] = none :=
    gapAt?_eq_none_of_getAt (v := x) (by rw [getAt_cons, h]; rfl)
  rw [child?_setAt hgap (reshapedBy_of_child? h), setAt_nil]

/-- Two children may be put in their places in either order. -/
theorem setAt_singleton_comm (hs : t.child? s = some x) (hr : t.child? r = some y)
    (hne : t.sameSlot s r = false) (v w : Node) :
    (t.setAt [s] v).setAt [r] w = (t.setAt [r] w).setAt [s] v := by
  cases t with
  | array items =>
    obtain ⟨i, hi, hx⟩ := getElem?_of_child? hs
    obtain ⟨j, hj, hy⟩ := getElem?_of_child? hr
    have hij : i ≠ j := by simpa [sameSlot, hi, hj] using hne
    have hx' : (items.set j w)[i]? = some x := by rw [List.getElem?_set_ne hij.symm, hx]
    have hy' : (items.set i v)[j]? = some y := by rw [List.getElem?_set_ne hij, hy]
    rw [setAt_array hi hx, setAt_array hj hy, setAt_nil, setAt_nil, setAt_array hj hy',
      setAt_array hi hx', setAt_nil, setAt_nil, List.set_comm v w hij]
  | object members =>
    have hsr : s ≠ r := by simpa [sameSlot] using hne
    have hx' : Members.get? s (Members.set r w members) = some x := by
      rw [Members.get?_set_ne hsr]
      exact hs
    have hy' : Members.get? r (Members.set s v members) = some y := by
      rw [Members.get?_set_ne hsr.symm]
      exact hr
    rw [setAt_object hs, setAt_object hr, setAt_nil, setAt_nil, setAt_object hy',
      setAt_object hx', setAt_nil, setAt_nil, Members.set_set_comm hsr]
  | _ => simp [child?] at hs

/-- A write into the slot where a child was put goes on below that child. -/
theorem setAt_singleton_setAt (hs : t.child? s = some x) (hr : t.sameSlot s r = true)
    (v : Node) (q : Path) (w : Node) :
    (t.setAt [s] v).setAt (r :: q) w = t.setAt [r] (v.setAt q w) := by
  have hchild : (t.setAt [s] v).child? r = some v := by
    rw [child?_setAt_singleton hs, if_pos hr]
  rw [setAt_cons hchild, setAt_of_sameSlot hr, setAt_setAt]

/-! ## One place in two spellings -/

/-- Whether two places are spellings of one, step by step through what is there. -/
def samePlace : Node → (p q : Path) → Bool
  | _, [], [] => true
  | t, s :: p, r :: q => t.sameSlot s r && (t.child? s).any fun c => samePlace c p q
  | _, _, _ => false

theorem samePlace_cons_iff :
    t.samePlace (s :: p) (r :: q) = true ↔
      t.sameSlot s r = true ∧ ∃ c, t.child? s = some c ∧ c.samePlace p q = true := by
  rw [samePlace, Bool.and_eq_true, Option.any_eq_true]

theorem samePlace_self {v : Node} (h : t.getAt p = some v) : t.samePlace p p = true := by
  induction p generalizing t with
  | nil => rfl
  | cons s p ih =>
    obtain ⟨c, hc, hv⟩ := Option.bind_eq_some_iff.1 h
    exact samePlace_cons_iff.2 ⟨sameSlot_of_child? hc, c, hc, ih hv⟩

theorem getAt_of_samePlace (h : t.samePlace p q = true) : t.getAt p = t.getAt q := by
  induction p generalizing t q with
  | nil =>
    cases q with
    | nil => rfl
    | cons r q => cases h
  | cons s p ih =>
    cases q with
    | nil => cases h
    | cons r q =>
      obtain ⟨hs, c, hc, hbelow⟩ := samePlace_cons_iff.1 h
      rw [getAt_cons, getAt_cons, ← child?_of_sameSlot hs, hc, Option.bind_some, Option.bind_some,
        ih hbelow]

theorem setAt_of_samePlace (h : t.samePlace p q = true) (v : Node) :
    t.setAt p v = t.setAt q v := by
  induction p generalizing t q with
  | nil =>
    cases q with
    | nil => rfl
    | cons r q => cases h
  | cons s p ih =>
    cases q with
    | nil => cases h
    | cons r q =>
      obtain ⟨hs, c, hc, hbelow⟩ := samePlace_cons_iff.1 h
      have hr : t.child? r = some c := (child?_of_sameSlot hs).symm.trans hc
      rw [setAt_cons hc, setAt_cons hr, ih hbelow, setAt_of_sameSlot hs]

/-! ## Places that hold texts -/

/-- A text stands at a place. -/
def HoldsText (t : Node) (p : Path) : Prop := ∃ text, t.getAt p = some (.string text)

theorem holdsText_root (h : t.HoldsText []) : ∃ text, t = .string text :=
  h.imp fun _ ht => Option.some.inj ht

theorem not_holdsText_string {text : String} : ¬ (string text).HoldsText (s :: p) := by
  rintro ⟨_, h⟩
  cases h

theorem holdsText_cons (h : t.HoldsText (s :: p)) : ∃ c, t.child? s = some c ∧ c.HoldsText p := by
  obtain ⟨text, h⟩ := h
  obtain ⟨c, hc, hv⟩ := Option.bind_eq_some_iff.1 h
  exact ⟨c, hc, text, hv⟩

/-- Of two writes at one place the later counts, in whatever spellings. -/
theorem setAt_setAt_of_samePlace (h : t.samePlace p q = true) (v z : Node) :
    (t.setAt p v).setAt q z = t.setAt q z := by
  rw [setAt_of_samePlace h, setAt_setAt]

/-- Writes at two places that hold texts may be made in either order. -/
theorem setAt_comm (hp : t.HoldsText p) (hq : t.HoldsText q) (hne : t.samePlace p q = false)
    (v z : Node) : (t.setAt p v).setAt q z = (t.setAt q z).setAt p v := by
  induction p generalizing t q with
  | nil =>
    obtain ⟨text, rfl⟩ := holdsText_root hp
    cases q with
    | nil => cases hne
    | cons r q => exact absurd hq not_holdsText_string
  | cons s p ih =>
    cases q with
    | nil =>
      obtain ⟨text, rfl⟩ := holdsText_root hq
      exact absurd hp not_holdsText_string
    | cons r q =>
      obtain ⟨x, hx, hp⟩ := holdsText_cons hp
      obtain ⟨y, hy, hq⟩ := holdsText_cons hq
      rw [setAt_cons hx, setAt_cons hy]
      -- Through one slot the two ways part below it; through two they change two children.
      by_cases hs : t.sameSlot s r = true
      · have hr : t.sameSlot r s = true := (sameSlot_comm t r s).trans hs
        obtain rfl : x = y := Option.some.inj (hx.symm.trans ((child?_of_sameSlot hs).trans hy))
        have hbelow : x.samePlace p q = false := by simpa [samePlace, hs, hx] using hne
        rw [setAt_singleton_setAt hx hs, setAt_singleton_setAt hy hr, ih hp hq hbelow,
          setAt_of_sameSlot hs]
      · have hr : ¬ t.sameSlot r s = true := fun h => hs ((sameSlot_comm t s r).trans h)
        have hx' : (t.setAt [r] (y.setAt q z)).child? s = some x := by
          rw [child?_setAt_singleton hy, if_neg hr, hx]
        have hy' : (t.setAt [s] (x.setAt p v)).child? r = some y := by
          rw [child?_setAt_singleton hx, if_neg hs, hy]
        rw [setAt_cons hx', setAt_cons hy',
          setAt_singleton_comm hx hy (Bool.eq_false_iff.2 hs)]

/-- Writing a text over another does not change which places are spellings of one. -/
theorem samePlace_setAt (hw : t.HoldsText w) (text : String) (p q : Path) :
    (t.setAt w (.string text)).samePlace p q = t.samePlace p q := by
  induction w generalizing t p q with
  | nil =>
    obtain ⟨_, rfl⟩ := holdsText_root hw
    rw [setAt_nil]
    cases p <;> cases q <;> simp [samePlace, child?]
  | cons u w ih =>
    obtain ⟨x, hx, hw⟩ := holdsText_cons hw
    cases p with
    | nil => cases q <;> rfl
    | cons s p =>
      cases q with
      | nil => rfl
      | cons r q =>
        rw [setAt_cons hx]
        unfold samePlace
        rw [sameSlot_setAt (reshapedBy_of_child? hx), child?_setAt_singleton hx]
        by_cases hs : t.sameSlot u s = true
        · rw [if_pos hs, ← child?_of_sameSlot hs, hx, Option.any_some, Option.any_some, ih hw]
        · rw [if_neg hs]

/-- A text that is written over another is read at all spellings of its place, and nowhere
else. -/
theorem getAt_setAt_text {text : String} (hw : t.HoldsText w) (hp : t.HoldsText p) :
    (t.setAt w (.string text)).getAt p =
      if t.samePlace w p then some (.string text) else t.getAt p := by
  by_cases h : t.samePlace w p = true
  · have hsame := (samePlace_setAt hw text w p).trans h
    rw [if_pos h, ← getAt_of_samePlace hsame, getAt_setAt_self]
  · obtain ⟨old, hold⟩ := hp
    -- Writing the old text again does nothing, also after the other write.
    have hback : (t.setAt w (.string text)).setAt p (.string old) = t.setAt w (.string text) := by
      rw [setAt_comm hw ⟨old, hold⟩ (Bool.eq_false_iff.2 h), setAt_of_getAt hold]
    rw [if_neg h, ← hback, getAt_setAt_self, hold]

theorem holdsText_setAt {text : String} (hw : t.HoldsText w) (hp : t.HoldsText p) :
    (t.setAt w (.string text)).HoldsText p := by
  unfold HoldsText
  rw [getAt_setAt_text hw hp]
  split
  · exact ⟨text, rfl⟩
  · exact hp

end WidgetSchema.Node
