-- Characters that markup writes as entities.
import WidgetSchema.Text.Search
namespace WidgetSchema.Entity

open Text

/-- The entities that authors use, in the order in which they are decoded. -/
def table : List (String × String) :=
  [("&quot;", "\""), ("&apos;", "'"), ("&amp;", "&"), ("&lt;", "<"), ("&gt;", ">")]

/-- The text with its entities decoded, one kind after the other. -/
def decodeChars (cs : List Char) : List Char :=
  table.foldl (fun cs (name, c) => replaceChars name.toList c.toList cs) cs

def decode (s : String) : String := String.ofList (decodeChars s.toList)

theorem length_replaceChars_le {word new : List Char} (h : new.length ≤ word.length)
    (cs : List Char) : (replaceChars word new cs).length ≤ cs.length := by
  fun_induction replaceChars word new cs with
  | case1 => simp
  | case2 cs hw before rest hc _ ih =>
    have := length_cutAt hc
    simp only [List.length_append]
    omega
  | case3 => simp

/-- Decoding makes no text longer. -/
theorem length_decodeChars_le (cs : List Char) : (decodeChars cs).length ≤ cs.length := by
  simp only [decodeChars, table, List.foldl_cons, List.foldl_nil]
  refine Nat.le_trans (length_replaceChars_le (by decide) _) ?_
  refine Nat.le_trans (length_replaceChars_le (by decide) _) ?_
  refine Nat.le_trans (length_replaceChars_le (by decide) _) ?_
  refine Nat.le_trans (length_replaceChars_le (by decide) _) ?_
  exact length_replaceChars_le (by decide) _

end WidgetSchema.Entity
