-- The numeric value of stored numbers. A number that is stored anew may change its form, from
-- `1.0` to `1`, but not its value, and no bound tells the two forms apart.
import Mathlib.Data.Rat.Lemmas
import Mathlib.Tactic.FieldSimp
import WidgetSchema.Proofs.Decimal.Whole
import WidgetSchema.Proofs.Node.Place
namespace WidgetSchema

/-! ## Floating-point numbers -/

namespace Decimal

/-- The number that a finite floating-point number stands for. -/
def value (x : Float) : ℚ :=
  (if isNegative x then -1 else 1) * ((magnitude x).1 * 2 ^ (magnitude x).2)

theorem value_of_wholeValue? {x : Float} {i : Int} (h : wholeValue? x = some i) :
    value x = i := by
  obtain ⟨_, n, hi, hn⟩ := wholeValue?_eq_some_iff.1 h
  have hsize : ((magnitude x).1 * 2 ^ (magnitude x).2 : ℚ) = n := by
    rcases hn with ⟨hq, hn⟩ | ⟨hq, hn⟩
    · have hpow : (magnitude x).2 = ((magnitude x).2.toNat : Int) := (Int.toNat_of_nonneg hq).symm
      rw [hn, hpow, zpow_natCast]
      push_cast
      rfl
    · have hpow : (magnitude x).2 = -((magnitude x).2.natAbs : Int) := by omega
      have hne : (2 : ℚ) ^ (magnitude x).2.natAbs ≠ 0 := pow_ne_zero _ two_ne_zero
      rw [hn, hpow, zpow_neg, zpow_natCast, Int.natAbs_neg, Int.natAbs_natCast]
      push_cast
      field_simp
  rw [value, hsize, hi]
  split <;> simp

end Decimal

/-! ## Stored numbers -/

namespace Number

def value : Number → ℚ
  | int i _ => i
  | float x _ => Decimal.value x

/-- A number that is what its floating-point form is. -/
def IsExact (n : Number) : Prop := Decimal.value n.toFloat = n.value

theorem isExact_float (x : Float) (finite : x.isFinite = true) : (float x finite).IsExact := rfl

end Number

open Decimal (SameSize sameSize_ofInt)

/-- A finite number is stored with its value, and no bound sees a difference. -/
theorem Node.exists_ofFloat_eq {x : Float} (h : x.isFinite = true) :
    ∃ n, Node.ofFloat x = .number n ∧ n.value = Decimal.value x ∧ SameSize n.toFloat x := by
  have hfloat : Number.ofFloat? x = some (.float x h) := dif_pos h
  have hself : SameSize x x := ⟨rfl, fun _ => Iff.rfl, fun _ => Iff.rfl⟩
  unfold Node.ofFloat
  rcases hw : wholeValue? x with _ | i
  · exact ⟨.float x h, by rw [hfloat]; rfl, rfl, hself⟩
  · by_cases hlt : i.natAbs < Nat.pow 2 53
    · have hfits : -Nat.pow 2 63 ≤ i ∧ i < Nat.pow 2 64 := by
        simp only [Nat.pow_eq] at hlt ⊢
        omega
      have hint : Number.ofInt? i = some (.int i hfits) := dif_pos hfits
      refine ⟨.int i hfits, ?_, (Decimal.value_of_wholeValue? hw).symm, sameSize_ofInt hw hlt⟩
      simp only [if_pos hlt, hint]
      rfl
    · refine ⟨.float x h, ?_, rfl, hself⟩
      simp only [if_neg hlt, hfloat]
      rfl

theorem Number.toFloat_of_ofInt? {i : Int} {n : Number}
    (h : ((Number.ofInt? i).map Node.number).getD .null = .number n) :
    n.toFloat = Float.ofInt i := by
  unfold Number.ofInt? at h
  split at h
  · exact Node.number.inj h ▸ rfl
  · cases h

theorem Number.toFloat_of_ofFloat? {x : Float} {n : Number}
    (h : ((Number.ofFloat? x).map Node.number).getD .null = .number n) : n.toFloat = x := by
  unfold Number.ofFloat? at h
  split at h
  · exact Node.number.inj h ▸ rfl
  · cases h

/-- A number that was stored is stored in the same form again. -/
theorem Node.ofFloat_toFloat {x : Float} {n : Number} (h : Node.ofFloat x = .number n) :
    Node.ofFloat n.toFloat = .number n := by
  unfold Node.ofFloat at h
  rcases hw : wholeValue? x with _ | i
  · simp only [hw] at h
    rw [Number.toFloat_of_ofFloat? h, Node.ofFloat, hw]
    exact h
  · by_cases hlt : i.natAbs < Nat.pow 2 53
    · simp only [hw, if_pos hlt] at h
      rw [Number.toFloat_of_ofInt? h, Node.ofFloat, Decimal.wholeValue?_ofInt hlt]
      simpa only [if_pos hlt] using h
    · simp only [hw, if_neg hlt] at h
      rw [Number.toFloat_of_ofFloat? h, Node.ofFloat, hw]
      simpa only [if_neg hlt] using h

/-! ## Trees that differ in the form of numbers only -/

namespace Node

mutual

/-- Two trees with the same values, where numbers count by what they are and not by their
form. -/
def SameValue : Node → Node → Prop
  | null, null => True
  | bool a, bool b => a = b
  | number m, number n => m.value = n.value
  | string a, string b => a = b
  | array xs, array ys => SameItems xs ys
  | object ms, object ns => SameMembers ms ns
  | _, _ => False

def SameItems : List Node → List Node → Prop
  | [], [] => True
  | x :: xs, y :: ys => SameValue x y ∧ SameItems xs ys
  | _, _ => False

def SameMembers : List (String × Node) → List (String × Node) → Prop
  | [], [] => True
  | (j, x) :: ms, (k, y) :: ns => j = k ∧ SameValue x y ∧ SameMembers ms ns
  | _, _ => False

end

mutual

theorem sameValue_refl : (t : Node) → SameValue t t
  | null => trivial
  | bool _ => rfl
  | number _ => rfl
  | string _ => rfl
  | array xs => sameItems_refl xs
  | object ms => sameMembers_refl ms

theorem sameItems_refl : (xs : List Node) → SameItems xs xs
  | [] => trivial
  | x :: xs => ⟨sameValue_refl x, sameItems_refl xs⟩

theorem sameMembers_refl : (ms : List (String × Node)) → SameMembers ms ms
  | [] => trivial
  | (_, x) :: ms => ⟨rfl, sameValue_refl x, sameMembers_refl ms⟩

end

theorem sameItems_set {xs : List Node} {i : Nat} {x y : Node} (hx : xs[i]? = some x)
    (h : SameValue y x) : SameItems (xs.set i y) xs := by
  induction xs generalizing i with
  | nil => exact trivial
  | cons z zs ih =>
    cases i with
    | zero =>
      have hz : z = x := Option.some.inj hx
      exact ⟨hz ▸ h, sameItems_refl zs⟩
    | succ i => exact ⟨sameValue_refl z, ih hx⟩

theorem sameMembers_replace {ms : Members Node} {key : String} {x y : Node}
    (hx : Members.get? key ms = some x) (h : SameValue y x) :
    SameMembers (Members.replace key y ms) ms := by
  induction ms with
  | nil => exact trivial
  | cons m ms ih =>
    obtain ⟨k, z⟩ := m
    by_cases hk : k = key
    · have hz : z = x := by simpa [Members.get?, hk] using hx
      rw [Members.replace, if_pos hk]
      exact ⟨rfl, hz ▸ h, sameMembers_refl ms⟩
    · have hrest : Members.get? key ms = some x := by simpa [Members.get?, hk] using hx
      rw [Members.replace, if_neg hk]
      exact ⟨rfl, sameValue_refl z, ih hrest⟩

/-- A value that gives way to one of the same value leaves the tree of the same value. -/
theorem sameValue_setAt {t v w : Node} {p : Path} (hv : t.getAt p = some v)
    (h : SameValue w v) : SameValue (t.setAt p w) t := by
  induction p generalizing t with
  | nil =>
    have htv : t = v := Option.some.inj hv
    rw [setAt_nil, htv]
    exact h
  | cons s p ih =>
    obtain ⟨x, hx, hxv⟩ := Option.bind_eq_some_iff.1 hv
    cases t with
    | array items =>
      obtain ⟨i, hi, hxi⟩ := getElem?_of_child? hx
      rw [setAt_array hi hxi]
      exact sameItems_set hxi (ih hxv)
    | object members =>
      rw [setAt_object hx, Members.set, if_pos (Members.has_of_get? hx)]
      exact sameMembers_replace hx (ih hxv)
    | _ => simp [child?] at hx

theorem sameValue_getElem? {xs ys : List Node} {i : Nat} {x y : Node} (h : SameItems xs ys)
    (hx : xs[i]? = some x) (hy : ys[i]? = some y) : SameValue x y := by
  induction xs generalizing ys i with
  | nil => simp at hx
  | cons z xs ih =>
    cases ys with
    | nil => exact h.elim
    | cons w ys =>
      cases i with
      | zero =>
        obtain ⟨rfl, rfl⟩ : z = x ∧ w = y := ⟨Option.some.inj hx, Option.some.inj hy⟩
        exact h.1
      | succ i => exact ih h.2 hx hy

theorem sameValue_get? {ms ns : Members Node} {key : String} {x y : Node}
    (h : SameMembers ms ns) (hx : Members.get? key ms = some x)
    (hy : Members.get? key ns = some y) : SameValue x y := by
  induction ms generalizing ns with
  | nil => cases hx
  | cons m ms ih =>
    obtain ⟨k, z⟩ := m
    cases ns with
    | nil => exact h.elim
    | cons n ns =>
      obtain ⟨k', w⟩ := n
      obtain ⟨rfl, hzw, hrest⟩ := h
      by_cases hk : k = key
      · simp only [Members.get?, hk, if_true, Option.some.injEq] at hx hy
        rwa [← hx, ← hy]
      · simp only [Members.get?, hk, if_false] at hx hy
        exact ih hrest hx hy

/-- Trees with the same values have the same values at every place. -/
theorem sameValue_getAt {t u v w : Node} {p : Path} (h : SameValue t u)
    (hv : t.getAt p = some v) (hw : u.getAt p = some w) : SameValue v w := by
  induction p generalizing t u with
  | nil =>
    obtain ⟨rfl, rfl⟩ : t = v ∧ u = w := ⟨Option.some.inj hv, Option.some.inj hw⟩
    exact h
  | cons s p ih =>
    obtain ⟨x, hx, hxv⟩ := Option.bind_eq_some_iff.1 hv
    obtain ⟨y, hy, hyw⟩ := Option.bind_eq_some_iff.1 hw
    refine ih ?_ hxv hyw
    cases t with
    | array xs =>
      cases u with
      | array ys =>
        obtain ⟨i, hi, hxi⟩ := getElem?_of_child? hx
        obtain ⟨j, hj, hyj⟩ := getElem?_of_child? hy
        obtain rfl : i = j := Option.some.inj (hi.symm.trans hj)
        exact sameValue_getElem? h hxi hyj
      | _ => exact h.elim
    | object ms =>
      cases u with
      | object ns => exact sameValue_get? h hx hy
      | _ => exact h.elim
    | _ => simp [child?] at hx

end Node

end WidgetSchema
