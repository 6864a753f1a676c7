-- Ids that are made for items. There are more numbered ids than ids that are taken, so one of
-- them is new. Whatever an id is made from, it is not empty and has no blank ends: so it is read
-- as it was stored.
import Mathlib.Data.List.Nodup
import Mathlib.Data.List.Perm.Subperm
import WidgetSchema.Normalization.Apply
import WidgetSchema.Proofs.Node.Position
import WidgetSchema.Proofs.Text.Slug
namespace WidgetSchema

namespace Normalization

/-- A text that is read as an id just as it is stored. -/
structure IsId (s : String) : Prop where
  ne_empty : s ≠ ""
  trimmed : Text.trim s = s

/-! ## Numbers behind an id -/

def numbered (seed : String) (n : Nat) : String := seed ++ "-" ++ toString n

theorem trim_numbered {seed : String} (h : Text.trim seed = seed) (n : Nat) :
    Text.trim (numbered seed n) = numbered seed n :=
  Text.trim_append (Text.trim_append h (by decide)) (Path.trim_toString n)

theorem IsId.numbered {seed : String} (h : IsId seed) (n : Nat) : IsId (numbered seed n) where
  ne_empty := by
    intro hnil
    have hlength := congrArg String.length hnil
    simp [Normalization.numbered] at hlength
  trimmed := trim_numbered h.trimmed n

theorem numbered_injective (seed : String) : Function.Injective (numbered seed) := by
  intro m n h
  have hlist := congrArg String.toList h
  simp only [numbered, String.toList_append] at hlist
  have hdigits := List.append_cancel_left hlist
  exact toString_injective (String.toList_inj.1 hdigits)

/-! ## New ids -/

/-- What ids are numbered from. -/
def seedOf (base : String) : String := if base = "" then "item" else base

theorem isId_seedOf {base : String} (h : Text.trim base = base) : IsId (seedOf base) := by
  unfold seedOf
  by_cases hnil : base = ""
  · rw [if_pos hnil]
    exact ⟨by decide, by decide⟩
  · rw [if_neg hnil]
    exact ⟨hnil, h⟩

/-- The ids that come into question, of which the first new one is taken. -/
def candidates (base : String) (used : List String) : List String :=
  seedOf base :: (List.range' 2 (used.length + 1)).map (numbered (seedOf base))

theorem uniqueId_eq (base : String) (used : List String) :
    uniqueId base used =
      ((candidates base used).find? fun id => !used.contains id).getD (seedOf base) := rfl

/-- Not all ids that come into question can be taken. -/
theorem exists_candidate (base : String) (used : List String) :
    ∃ id, (candidates base used).find? (fun id => !used.contains id) = some id := by
  rcases hfind : (candidates base used).find? (fun id => !used.contains id) with _ | id
  · have htaken : (List.range' 2 (used.length + 1)).map (numbered (seedOf base)) ⊆ used := by
      intro id hid
      have hnot := List.find?_eq_none.1 hfind id (List.mem_cons_of_mem _ hid)
      simpa using hnot
    have hnodup : ((List.range' 2 (used.length + 1)).map (numbered (seedOf base))).Nodup :=
      List.Nodup.map (numbered_injective _) List.nodup_range'
    have hlength := (List.subperm_of_subset hnodup htaken).length_le
    rw [List.length_map, List.length_range'] at hlength
    omega
  · exact ⟨id, rfl⟩

theorem uniqueId_notMem (base : String) (used : List String) : uniqueId base used ∉ used := by
  obtain ⟨id, hid⟩ := exists_candidate base used
  have hnew := List.find?_some hid
  rw [uniqueId_eq, hid, Option.getD_some]
  simpa using hnew

theorem isId_uniqueId {base : String} (h : Text.trim base = base) (used : List String) :
    IsId (uniqueId base used) := by
  obtain ⟨id, hid⟩ := exists_candidate base used
  rw [uniqueId_eq, hid, Option.getD_some]
  rcases List.mem_cons.1 (List.mem_of_find?_eq_some hid) with rfl | hnumbered
  · exact isId_seedOf h
  · obtain ⟨n, -, rfl⟩ := List.mem_map.1 hnumbered
    exact (isId_seedOf h).numbered n

/-- An id that is not taken stays. -/
theorem uniqueId_of_notMem {id : String} (hne : id ≠ "") {used : List String} (h : id ∉ used) :
    uniqueId id used = id := by
  have hseed : seedOf id = id := if_neg hne
  rw [uniqueId_eq, candidates, hseed, List.find?_cons_of_pos (by simpa using h),
    Option.getD_some]

/-! ## What an id is made from -/

theorem trim_numbering (rule : IdRule) : Text.trim (numbering rule) = numbering rule := by
  unfold numbering
  dsimp only
  split
  · decide
  · exact Text.trim_slug _

theorem trim_idSeed (rule : IdRule) (index : Nat) (item : Node) {id : String}
    (h : Text.trim id = id) :
    Text.trim (idSeed rule (numbering rule) index item id) =
      idSeed rule (numbering rule) index item id := by
  have hnumber := trim_numbered (trim_numbering rule) (index + 1)
  unfold idSeed
  by_cases hid : id ≠ ""
  · rw [if_pos hid]
    exact h
  · rw [if_neg hid]
    rcases (rule.seedKey.bind item.member?).bind Node.string? with _ | text
    · exact hnumber
    · simp only [Option.map_some]
      split
      · rename_i hnone
        cases hnone
      · exact hnumber
      · rename_i hslug
        exact Option.some.inj hslug ▸ Text.trim_slug text

end Normalization

end WidgetSchema
