-- Members in the order of their names. Every object that is read has its members in order, and
-- members that are in order are put in order by leaving them as they are.
import WidgetSchema.Node.Members
namespace WidgetSchema

namespace Members

variable {α : Type}

/-- Members under ascending names. -/
def Ascending (ms : Members α) : Prop := (names ms).Pairwise (· < ·)

theorem mem_names_of_has {key : String} {ms : Members α} (h : has key ms = true) :
    key ∈ names ms := by
  obtain ⟨v, hv⟩ := Option.isSome_iff_exists.1 h
  exact List.mem_map.2 ⟨_, mem_of_get? hv, rfl⟩

theorem get?_eq_none_of_notMem {key : String} {ms : Members α} (h : key ∉ names ms) :
    get? key ms = none := by
  apply Option.not_isSome_iff_eq_none.1
  exact fun hhas => h (mem_names_of_has hhas)

theorem has_of_mem_names {key : String} {ms : Members α} (h : key ∈ names ms) :
    has key ms = true := by
  induction ms with
  | nil => cases h
  | cons m ms ih =>
    obtain ⟨k, v⟩ := m
    by_cases hk : k = key
    · simp [has, get?, hk]
    · have hrest : key ∈ names ms := (List.mem_cons.1 h).resolve_left (Ne.symm hk)
      simpa [has, get?, hk] using ih hrest

theorem names_replace (key : String) (value : α) (ms : Members α) :
    names (replace key value ms) = names ms := by
  induction ms with
  | nil => rfl
  | cons m ms ih =>
    obtain ⟨k, v⟩ := m
    by_cases hk : k = key
    · simp [replace, names, hk]
    · simpa [replace, names, hk] using ih

theorem Ascending.insert {key : String} {value : α} {ms : Members α} (h : Ascending ms)
    (hkey : key ∉ names ms) : Ascending (insert key value ms) := by
  induction ms with
  | nil => exact List.pairwise_singleton _ _
  | cons m ms ih =>
    obtain ⟨k, v⟩ := m
    obtain ⟨hlater, hms⟩ := List.pairwise_cons.1 h
    simp only [Members.insert]
    split
    · rename_i hlt
      refine List.pairwise_cons.2 ⟨fun name hname => ?_, h⟩
      rcases List.mem_cons.1 hname with rfl | hname
      · exact hlt
      · exact String.lt_trans hlt (hlater name hname)
    · rename_i hlt
      have hne : key ≠ k := fun heq => hkey (heq ▸ List.mem_cons_self)
      have hgt : k < key := by
        refine Classical.byContradiction fun hnot => hne ?_
        exact String.le_antisymm (String.not_lt.1 hnot) (String.not_lt.1 hlt)
      refine List.pairwise_cons.2 ⟨fun name hname => ?_, ?_⟩
      · obtain ⟨⟨j, w⟩, hmem, rfl⟩ := List.mem_map.1 hname
        rcases mem_of_mem_insert hmem with hnew | hold
        · obtain ⟨rfl, -⟩ := Prod.mk.inj hnew
          exact hgt
        · exact hlater j (List.mem_map.2 ⟨_, hold, rfl⟩)
      · exact ih hms fun hmem => hkey (List.mem_cons_of_mem k hmem)

theorem Ascending.set {ms : Members α} (h : Ascending ms) (key : String) (value : α) :
    Ascending (set key value ms) := by
  unfold Members.set
  split
  · unfold Ascending
    rw [names_replace]
    exact h
  · rename_i hhas
    exact h.insert fun hmem => hhas (has_of_mem_names hmem)

theorem ascending_ofList (pairs : List (String × α)) : Ascending (ofList pairs) := by
  suffices h : ∀ acc : Members α, Ascending acc →
      Ascending (pairs.foldl (fun ms p => set p.1 p.2 ms) acc) from
    h [] List.Pairwise.nil
  induction pairs with
  | nil => exact fun acc hacc => hacc
  | cons p pairs ih => exact fun acc hacc => ih _ (hacc.set p.1 p.2)

theorem insert_last {key : String} {ms : Members α} (h : ∀ name ∈ names ms, name < key)
    (value : α) :
    insert key value ms = ms ++ [(key, value)] := by
  induction ms with
  | nil => rfl
  | cons m ms ih =>
    obtain ⟨k, v⟩ := m
    have hk : ¬ key < k := fun hlt =>
      String.lt_irrefl k (String.lt_trans (h k List.mem_cons_self) hlt)
    rw [insert, if_neg hk, ih fun name hname => h name (List.mem_cons_of_mem k hname)]
    rfl

/-- Members in order are set one after the other. -/
theorem ofList_of_ascending {ms : Members α} (h : Ascending ms) : ofList ms = ms := by
  suffices hrun : ∀ acc : Members α, Ascending (acc ++ ms) →
      ms.foldl (fun ms p => set p.1 p.2 ms) acc = acc ++ ms from hrun [] h
  induction ms with
  | nil => exact fun acc _ => (List.append_nil acc).symm
  | cons m ms ih =>
    obtain ⟨k, v⟩ := m
    intro acc hacc
    have hnames : names (acc ++ (k, v) :: ms) = names acc ++ k :: names ms := List.map_append
    have hbefore : ∀ name ∈ names acc, name < k := by
      intro name hname
      unfold Ascending at hacc
      rw [hnames] at hacc
      exact (List.pairwise_append.1 hacc).2.2 name hname k List.mem_cons_self
    have hset : set k v acc = acc ++ [(k, v)] := by
      have hnew : ¬ has k acc = true := fun hhas =>
        String.lt_irrefl k (hbefore k (mem_names_of_has hhas))
      rw [set, if_neg hnew, insert_last hbefore]
    have happend : acc ++ (k, v) :: ms = acc ++ [(k, v)] ++ ms := List.append_cons acc (k, v) ms
    have hrest := ih (List.pairwise_cons.1 h).2 (set k v acc) (by rw [hset, ← happend]; exact hacc)
    rw [List.foldl_cons, hrest, hset, ← happend]

/-- Members that were put in order stay as they are. -/
theorem ofList_ofList (pairs : List (String × α)) : ofList (ofList pairs) = ofList pairs :=
  ofList_of_ascending (ascending_ofList pairs)

theorem mem_of_mem_ofList {m : String × α} {pairs : List (String × α)} (h : m ∈ ofList pairs) :
    m ∈ pairs := by
  suffices hrun : ∀ acc : Members α, m ∈ pairs.foldl (fun ms p => set p.1 p.2 ms) acc →
      m ∈ acc ∨ m ∈ pairs from (hrun [] h).resolve_left List.not_mem_nil
  clear h
  induction pairs with
  | nil => exact fun acc h => .inl h
  | cons p pairs ih =>
    obtain ⟨k, v⟩ := p
    intro acc h
    rcases ih _ h with hset | hrest
    · rcases mem_of_mem_set hset with rfl | hacc
      · exact .inr List.mem_cons_self
      · exact .inl hacc
    · exact .inr (List.mem_cons_of_mem _ hrest)

end Members

end WidgetSchema
