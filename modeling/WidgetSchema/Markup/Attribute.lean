-- The attributes of a tag: names with quoted values. Everything else between them is passed
-- over.
import WidgetSchema.Text.Blank
import WidgetSchema.Text.Search
import WidgetSchema.Text.Word
namespace WidgetSchema

open Text

/-- The attributes of a tag in the order in which they are written. Of two with one name the
later counts. -/
structure Attributes where
  pairs : List (String × String)
  deriving DecidableEq

namespace Attributes

/-! ## Reading -/

def isNameChar (c : Char) : Bool := isWordChar c || c == '-'

/-- The text up to a closing quote, and what follows the quote. -/
def upTo? (quote : Char) (cs : List Char) : Option (List Char × List Char) :=
  match cs.dropWhile (· ≠ quote) with
  | [] => none
  | _ :: rest => some (cs.takeWhile (· ≠ quote), rest)

/-- The quoted value behind an equals sign, and what follows it. -/
def assigned? (cs : List Char) : Option (List Char × List Char) :=
  match cs.dropWhile isBlank with
  | '=' :: rest =>
    match rest.dropWhile isBlank with
    | '"' :: value => upTo? '"' value
    | '\'' :: value => upTo? '\'' value
    | _ => none
  | _ => none

theorem length_dropWhile_le (p : Char → Bool) (cs : List Char) :
    (cs.dropWhile p).length ≤ cs.length := (List.dropWhile_sublist p).length_le

theorem length_takeWhile_add (p : Char → Bool) (cs : List Char) :
    (cs.takeWhile p).length + (cs.dropWhile p).length = cs.length := by
  rw [← List.length_append, List.takeWhile_append_dropWhile]

theorem length_upTo? {quote : Char} {cs value rest : List Char}
    (h : upTo? quote cs = some (value, rest)) : value.length + rest.length < cs.length := by
  unfold upTo? at h
  split at h
  · cases h
  · rename_i c tail ht
    simp only [Option.some.injEq, Prod.mk.injEq] at h
    have := length_takeWhile_add (· ≠ quote) cs
    rw [ht, List.length_cons] at this
    rw [← h.1, ← h.2]
    omega

theorem length_assigned? {cs value rest : List Char}
    (h : assigned? cs = some (value, rest)) : value.length + rest.length < cs.length := by
  unfold assigned? at h
  split at h
  · rename_i tail ht
    have h1 := length_dropWhile_le isBlank cs
    rw [ht] at h1
    have h2 := length_dropWhile_le isBlank tail
    split at h
    · rename_i v hv
      rw [hv] at h2
      have := length_upTo? h
      simp only [List.length_cons] at *
      omega
    · rename_i v hv
      rw [hv] at h2
      have := length_upTo? h
      simp only [List.length_cons] at *
      omega
    · cases h
  · cases h

theorem lt_of_assigned? {cs value rest : List Char} (h : assigned? cs = some (value, rest)) :
    rest.length < cs.length :=
  Nat.lt_of_le_of_lt (Nat.le_add_left _ _) (length_assigned? h)

/-- The names and values in the text of a tag. -/
def pairsIn (cs : List Char) : List (String × String) :=
  match cs with
  | [] => []
  | c :: rest =>
    if isNameChar c then
      let name := c :: rest.takeWhile isNameChar
      let after := rest.dropWhile isNameChar
      have hle : after.length ≤ rest.length := length_dropWhile_le isNameChar rest
      match h : assigned? after with
      | some (value, tail) =>
        have : tail.length < (c :: rest).length :=
          Nat.lt_succ_of_lt (Nat.lt_of_lt_of_le (lt_of_assigned? h) hle)
        (String.ofList name, String.ofList value) :: pairsIn tail
      | none =>
        have : after.length < (c :: rest).length := Nat.lt_succ_of_le hle
        pairsIn after
    else pairsIn rest
termination_by cs.length
decreasing_by
  · exact this
  · exact this
  · exact Nat.lt_succ_self _

def ofChars (cs : List Char) : Attributes := ⟨pairsIn cs⟩

/-! ## Values -/

/-- The value under a name, also an empty one. -/
def raw? (a : Attributes) (name : String) : Option String :=
  (a.pairs.reverse.find? fun p => p.1 == name).map (·.2)

/-- The value under a name, unless it is empty. -/
def get? (a : Attributes) (name : String) : Option String := (a.raw? name).filter (· ≠ "")

/-- The first value that is not empty among several spellings of a name. -/
def first? (a : Attributes) (names : List String) : Option String := names.findSome? a.get?

def isEmpty (a : Attributes) : Bool := a.pairs.isEmpty

/-! ## Laws -/

/-- A value is shorter than the text it was read from. -/
theorem length_of_mem_pairsIn {cs : List Char} {p : String × String} (h : p ∈ pairsIn cs) :
    p.2.toList.length < cs.length := by
  fun_induction pairsIn cs with
  | case1 => simp at h
  | case2 c rest hc name after hle value tail ha _ ih =>
    have := length_assigned? ha
    simp only [List.length_cons]
    rcases List.mem_cons.1 h with h | h
    · subst h
      simp only [String.toList_ofList]
      omega
    · have := ih h
      omega
  | case3 c rest hc after hle ha _ ih =>
    have := ih h
    simp only [List.length_cons]
    omega
  | case4 c rest hc ih =>
    have := ih h
    simp only [List.length_cons]
    omega

theorem length_get?_ofChars {cs : List Char} {name value : String}
    (h : (ofChars cs).get? name = some value) : value.toList.length < cs.length := by
  unfold get? raw? at h
  obtain ⟨hv, _⟩ := Option.filter_eq_some_iff.1 h
  obtain ⟨p, hp, he⟩ := Option.map_eq_some_iff.1 hv
  have := List.mem_of_find?_eq_some hp
  rw [← he]
  exact length_of_mem_pairsIn (List.mem_reverse.1 this)

end Attributes

end WidgetSchema
