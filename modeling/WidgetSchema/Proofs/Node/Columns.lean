-- Records in columns. A record is written as an object with a member for every column that has a
-- value, and as the names of its columns are all different, every column is found again.
import WidgetSchema.Node.Record
import WidgetSchema.Proofs.Node.Ascending
namespace WidgetSchema

namespace Written

theorem ofNodes_eq_map (xs : List Node) : ofNodes xs = xs.map ofNode := by
  induction xs with
  | nil => rfl
  | cons x xs ih => rw [ofNodes, ih, List.map_cons]

/-- A list is read item by item. -/
theorem listOf?_ofNode {α : Type} {read : Written → Option α} {write : α → Node} {as : List α}
    (h : ∀ a ∈ as, read (ofNode (write a)) = some a) :
    listOf? read (ofNode (.array (as.map write))) = some as := by
  rw [ofNode, listOf?, ofNodes_eq_map]
  induction as with
  | nil => rfl
  | cons a as ih =>
    have ha := h a List.mem_cons_self
    have has := ih fun b hb => h b (List.mem_cons_of_mem a hb)
    simp only [List.map_cons, List.mapM_cons, ha, has, bind, Option.bind_some, pure]

theorem listOf?_strings (ss : List String) :
    listOf? string? (ofNode (Node.strings ss)) = some ss :=
  listOf?_ofNode fun _ _ => rfl

end Written

namespace Record

open Written (ofNode ofMembers)

/-! ## Columns -/

/-- The members of a record: its columns that have a value. -/
def columns : List (String × Option Node) → Members Node
  | [] => []
  | (k, o) :: cs => Node.present k id o ++ columns cs

theorem present_eq {α : Type} (key : String) (write : α → Node) (o : Option α) :
    Node.present key write o = Node.present key id (o.map write) := by
  cases o <;> rfl

theorem names_columns (cs : List (String × Option Node)) :
    (Members.names (columns cs)).Sublist (cs.map Prod.fst) := by
  induction cs with
  | nil => exact List.Sublist.refl []
  | cons c cs ih =>
    obtain ⟨k, o⟩ := c
    cases o with
    | none => exact ih.cons k
    | some v => exact ih.cons_cons k

theorem get?_columns {cs : List (String × Option Node)} (h : (cs.map Prod.fst).Nodup)
    {key : String} {o : Option Node} (hm : (key, o) ∈ cs) : Members.get? key (columns cs) = o := by
  induction cs with
  | nil => cases hm
  | cons c cs ih =>
    obtain ⟨k, p⟩ := c
    obtain ⟨hk, hcs⟩ := List.nodup_cons.1 h
    rcases List.mem_cons.1 hm with heq | htail
    · obtain ⟨rfl, rfl⟩ := Prod.mk.inj heq
      cases o with
      | none => exact Members.get?_eq_none_of_notMem fun hmem => hk ((names_columns cs).mem hmem)
      | some v => exact if_pos rfl
    · have hkey : key ∈ cs.map Prod.fst := List.mem_map.2 ⟨(key, o), htail, rfl⟩
      have hne : k ≠ key := by
        rintro rfl
        exact hk hkey
      cases p with
      | none => exact ih hcs htail
      | some v => exact (if_neg hne).trans (ih hcs htail)

/-! ## Reading -/

/-- The members of an object as they are written. -/
def written (ms : Members Node) : List (String × Written) := ms.map fun (k, v) => (k, ofNode v)

theorem get?_written (key : String) (ms : Members Node) :
    Members.get? key (written ms) = (Members.get? key ms).map ofNode := by
  induction ms with
  | nil => rfl
  | cons m ms ih =>
    obtain ⟨k, v⟩ := m
    by_cases hk : k = key
    · simp [written, Members.get?, hk]
    · simpa [written, Members.get?, hk] using ih

theorem known?_ofMembers {names : List String} {ms : Members Node}
    (hnodup : (Members.names ms).Nodup) (hknown : ∀ k ∈ Members.names ms, k ∈ names) :
    known? names (ofMembers ms) = some (written ms) := by
  induction ms with
  | nil => rfl
  | cons m ms ih =>
    obtain ⟨k, v⟩ := m
    obtain ⟨hk, hms⟩ := List.nodup_cons.1 hnodup
    have hrest := ih hms fun k' hk' => hknown k' (List.mem_cons_of_mem k hk')
    have hnew : Members.has k (written ms) = false := by
      rw [Members.has, get?_written, Members.get?_eq_none_of_notMem hk]
      rfl
    have hcontains : names.contains k = true :=
      List.contains_iff_mem.2 (hknown k List.mem_cons_self)
    simp only [ofMembers, known?, hrest, bind, Option.bind_some, hcontains, if_true, hnew,
      Bool.false_eq_true, if_false]
    rfl

/-- A record whose columns have the names that are known is read with all of its columns. -/
theorem ofWritten?_columns (names : List String) (cs : List (String × Option Node))
    (hnames : cs.map Prod.fst = names) (hnodup : names.Nodup) :
    ∃ r, ofWritten? names (ofNode (.object (columns cs))) = some r ∧
      ∀ c ∈ cs, Members.get? c.1 r.members = c.2.map ofNode := by
  have hsub := names_columns cs
  rw [hnames] at hsub
  have hknown := known?_ofMembers (hsub.nodup hnodup) fun k hk => hsub.mem hk
  refine ⟨⟨written (columns cs)⟩, ?_, fun c hc => ?_⟩
  · rw [ofNode, ofWritten?, hknown, Option.map_some]
  · rw [get?_written, get?_columns (hnames ▸ hnodup) hc]

variable {α : Type} {r : Record} {key : String} {read : Written → Option α}

theorem required_eq_some {v : Node} {a : α} (h : Members.get? key r.members = (some v).map ofNode)
    (hread : read (ofNode v) = some a) : r.required key read = some a := by
  rw [required, h, Option.map_some, Option.bind_some, hread]

theorem required_text {s : String}
    (h : Members.get? key r.members = (some (Node.string s)).map ofNode) :
    r.required key Written.string? = some s :=
  required_eq_some h rfl

theorem ofNode_ne_null {v : Node} (h : v ≠ .null) : ofNode v ≠ .null := by
  cases v with
  | null => exact absurd rfl h
  | _ => exact fun heq => nomatch heq

/-- A record is read column by column. -/
theorem bind_eq_some {β : Type} {o : Option α} {a : α} {f : α → Option β} {b : β}
    (ho : o = some a) (h : f a = some b) : (o >>= f) = some b := by
  rw [ho]
  exact h

/-- A value that is not written as null is told apart from no value. -/
theorem optional_eq_some {o : Option α} {write : α → Node}
    (h : Members.get? key r.members = (o.map write).map ofNode)
    (hnull : ∀ a ∈ o, write a ≠ .null) (hread : ∀ a ∈ o, read (ofNode (write a)) = some a) :
    r.optional key read = some o := by
  unfold optional
  cases o with
  | none =>
    rw [h]
    rfl
  | some a =>
    have hne := ofNode_ne_null (hnull a rfl)
    rw [h, Option.map_some, Option.map_some]
    split
    · rename_i hnone
      cases hnone
    · rename_i hsome
      exact absurd (Option.some.inj hsome) hne
    · rename_i w _ hsome
      obtain rfl := Option.some.inj hsome
      rw [hread a rfl, Option.map_some]

theorem optional_text {o : Option String}
    (h : Members.get? key r.members = (o.map Node.string).map ofNode) :
    r.optional key Written.string? = some o :=
  optional_eq_some h (fun _ _ => Node.noConfusion) fun _ _ => rfl

/-- A list that is left out where it is empty is read as the empty list. -/
theorem listed_eq_some {as : List α} {write : α → Node}
    (h : Members.get? key r.members =
      (if as.isEmpty then none else some (Node.array (as.map write))).map ofNode)
    (hread : ∀ a ∈ as, read (ofNode (write a)) = some a) : r.listed key read = some as := by
  unfold listed
  cases as with
  | nil =>
    rw [h]
    rfl
  | cons a as =>
    rw [h, List.isEmpty_cons, if_neg Bool.false_ne_true, Option.map_some]
    exact Written.listOf?_ofNode hread

end Record

end WidgetSchema
