-- Writes that spare the way to a place. Such a write goes to the place itself, or beside it
-- without turning an array on the way into an object. Along the way it leaves every array an array
-- and makes no new one, so whatever spared the way before it spares the way after it.
import WidgetSchema.Proofs.Node.Place
namespace WidgetSchema.Node

open WidgetSchema.Path (index? Comparable)

/-- A write at `w` spares the way to `p`. -/
def Spares (t : Node) (w p : Path) : Prop :=
  w = p ∨ (¬ Comparable w p ∧ t.breaksWay w p = false)

variable {t : Node} {u s r : String} {w p o : Path}

/-! ## Where nothing is -/

theorem breaksWay_root (t : Node) (w : Path) : t.breaksWay w [] = false := by
  cases w <;> rfl

theorem breaksWay_null (w p : Path) : null.breaksWay w p = false := by
  cases w with
  | nil => rfl
  | cons u w =>
    cases p with
    | nil => rfl
    | cons s p => simp [breaksWay, reshapedBy, child?]

theorem breaksWay_child (h : t.breaksWay (u :: w) (s :: p) = false)
    (hs : t.sameSlot u s = true) : ((t.child? s).getD null).breaksWay w p = false := by
  rcases hc : t.child? s with _ | c
  · exact breaksWay_null w p
  · have hbelow := (Bool.or_eq_false_iff.1 h).2
    simpa [hs, hc] using hbelow

theorem gapAt?_below (h : t.gapAt? (s :: p) = none) :
    ((t.child? s).getD null).gapAt? p = none := by
  rcases hc : t.child? s with _ | c
  · cases p <;> rfl
  · exact gapAt?_child h hc

/-! ## One step along the way -/

namespace Spares

theorem not_root (h : t.Spares (u :: w) []) : False := by
  rcases h with h | ⟨h, _⟩
  · cases h
  · exact h (Path.comparable_nil _)

theorem root_eq (h : t.Spares [] p) : p = [] := by
  rcases h with h | ⟨h, _⟩
  · exact h.symm
  · exact absurd trivial h

/-- A write that spares a way leaves it at once, or goes one step along it and spares the
rest. -/
theorem step (h : t.Spares (u :: w) (s :: p)) (hgap : t.gapAt? (u :: w) = none) (v : Node) :
    (t.setAt (u :: w) v).child? s = t.child? s ∨
      ((t.setAt (u :: w) v).child? s = some (((t.child? s).getD null).setAt w v) ∧
        ((t.child? s).getD null).Spares w p ∧ ((t.child? s).getD null).gapAt? w = none) := by
  rcases h with h | ⟨hbeside, hkeep⟩
  · obtain ⟨rfl, rfl⟩ := List.cons.inj h
    exact Or.inr ⟨child?_setAt_self t u w v, Or.inl rfl, gapAt?_below hgap⟩
  · have hchild := child?_setAt hgap (Bool.or_eq_false_iff.1 hkeep).1 v s
    by_cases hs : t.sameSlot u s = true
    · rw [if_pos hs, child?_of_sameSlot hs] at hchild
      have hbelow := gapAt?_below hgap
      rw [child?_of_sameSlot hs] at hbelow
      have hrest : ¬ Comparable w p := fun hwp => hbeside ⟨sameStep_of_sameSlot hs, hwp⟩
      exact Or.inr ⟨hchild, Or.inr ⟨hrest, breaksWay_child hkeep hs⟩, hbelow⟩
    · rw [if_neg hs] at hchild
      exact Or.inl hchild

/-- A write reshapes an array of the way only where the place itself asks for an object. -/
theorem reshapedBy_eq_false (h : t.Spares (u :: w) (s :: p)) (hs : t.reshapedBy s = false) :
    t.reshapedBy u = false := by
  rcases h with h | ⟨_, hkeep⟩
  · exact (List.cons.inj h).1 ▸ hs
  · exact (Bool.or_eq_false_iff.1 hkeep).1

/-- Where the way goes on by a position, an array stays one and nothing else becomes one. -/
theorem isArray_setAt (h : t.Spares (u :: w) (s :: p)) (hs : (index? s).isSome = true)
    (v : Node) : (t.setAt (u :: w) v).isArray = t.isArray := by
  have hkeep : t.reshapedBy s = false := by
    cases t with
    | array items =>
      rw [reshapedBy, Option.isNone_eq_false_iff]
      exact hs
    | _ => rfl
  rw [Bool.eq_iff_iff]
  exact ⟨fun hnew => (isArray_of_isArray_setAt hnew).1,
    (kind_setAt (h.reshapedBy_eq_false hkeep) w v).1⟩

/-! ## All writes -/

/-- A write that spares a way brings no array to it, so other writes go on turning none of its
arrays into an object. -/
theorem breaksWay_setAt (h : t.Spares w p) (hgap : t.gapAt? w = none)
    (ho : t.breaksWay o p = false) (v : Node) : (t.setAt w v).breaksWay o p = false := by
  induction w generalizing t p o with
  | nil => rw [h.root_eq, breaksWay_root]
  | cons u w ih =>
    cases p with
    | nil => exact h.not_root.elim
    | cons s p =>
      cases o with
      | nil => rfl
      | cons r o =>
        have hr : t.reshapedBy r = false := (Bool.or_eq_false_iff.1 ho).1
        unfold breaksWay
        by_cases hu : t.reshapedBy u = true
        · -- An array gives way at the place itself, and `r` is not the name that it is left with.
          have hs : t.reshapedBy s = true := by
            by_contra hs
            rw [h.reshapedBy_eq_false (Bool.eq_false_iff.2 hs)] at hu
            cases hu
          have hrs : r ≠ s := by
            rintro rfl
            rw [hr] at hs
            cases hs
          cases t with
          | array items =>
            have hi : index? u = none := by simpa [reshapedBy] using hu
            simp [setAt_array_cons, hi, reshapedBy, sameSlot, hrs]
          | _ => cases hu
        · have hk := Bool.eq_false_iff.2 hu
          rw [reshapedBy_setAt hk, sameSlot_setAt hk, hr, Bool.false_or]
          by_cases hs : t.sameSlot r s = true
          · rw [hs, Bool.true_and]
            rcases h.step hgap v with hchild | ⟨hchild, hbelow, hgapBelow⟩
            · rw [hchild]
              simpa [hr, hs, breaksWay] using ho
            · rw [hchild, Option.any_some]
              exact ih hbelow hgapBelow (breaksWay_child ho hs)
          · rw [Bool.eq_false_iff.2 hs, Bool.false_and]

theorem setAt (h : t.Spares w p) (hgap : t.gapAt? w = none) (v : Node) (ho : t.Spares o p) :
    (t.setAt w v).Spares o p :=
  ho.imp_right fun ⟨hbeside, hkeep⟩ => ⟨hbeside, h.breaksWay_setAt hgap hkeep v⟩

/-- A write that spares the way to a place and goes elsewhere leaves the value there. -/
theorem getAt_setAt (h : t.Spares w p) (hgap : t.gapAt? w = none) (hne : w ≠ p) (v : Node) :
    (t.setAt w v).getAt p = t.getAt p := by
  rcases h with h | ⟨hbeside, hkeep⟩
  · exact absurd h hne
  · rw [getAt_setAt_beside hbeside hgap, hkeep]
    rfl

end Spares

end WidgetSchema.Node
