-- Positions behind the end of an array. The check for gaps goes the way of a write through what is
-- there. Where it finds a gap, the write fills an array up with nulls. Where it finds none, an array
-- takes what is written into one of its slots or into the next one, so no array grows by more than
-- one item.
import WidgetSchema.Proofs.Node.Spared
import WidgetSchema.Proofs.Node.Spellings
namespace WidgetSchema.Node

open WidgetSchema.Path (index?)

variable {t c x v : Node} {s r : String} {p q way rest : Path} {items : List Node} {i n : Nat}

/-! ## Slots of an array -/

/-- Behind the end, nulls stand up to the position. -/
theorem padTo_set_of_le (h : items.length ≤ i) (x : Node) :
    (padTo items i).set i x = items ++ (List.replicate (i - items.length) null ++ [x]) := by
  have hcount : i + 1 - items.length = (i - items.length) + 1 := by omega
  rw [padTo, hcount, List.replicate_succ', List.set_append_right i x h]
  rw [List.set_append_right _ x (by simp), List.length_replicate, Nat.sub_self]
  rfl

end WidgetSchema.Node
