-- Named members in the order of their names. Setting a member that is there keeps its
-- place, so setting what is already stored changes nothing.
namespace WidgetSchema

/-- Members under names that are all different and, in every list built here, ascending. -/
abbrev Members (α : Type) := List (String × α)

namespace Members

variable {α : Type}

def get? (key : String) : Members α → Option α
  | [] => none
  | (k, v) :: ms => if k = key then some v else get? key ms

def has (key : String) (ms : Members α) : Bool := (get? key ms).isSome

def replace (key : String) (value : α) : Members α → Members α
  | [] => []
  | (k, v) :: ms => if k = key then (k, value) :: ms else (k, v) :: replace key value ms

/-- Adds a member before the first one with a later name. -/
def insert (key : String) (value : α) : Members α → Members α
  | [] => [(key, value)]
  | (k, v) :: ms => if key < k then (key, value) :: (k, v) :: ms else (k, v) :: insert key value ms

def set (key : String) (value : α) (ms : Members α) : Members α :=
  if has key ms then replace key value ms else insert key value ms

def erase (key : String) : Members α → Members α
  | [] => []
  | (k, v) :: ms => if k = key then ms else (k, v) :: erase key ms

/-- The members of a list of pairs. Of two pairs with one name the later counts. -/
def ofList (pairs : List (String × α)) : Members α :=
  pairs.foldl (fun ms (k, v) => set k v ms) []

def names (ms : Members α) : List String := ms.map (·.1)

/-! ## Laws -/

theorem get?_replace (key : String) (value : α) {ms : Members α} (h : has key ms = true) :
    get? key (replace key value ms) = some value := by
  induction ms with
  | nil => simp [has, get?] at h
  | cons m ms ih =>
    obtain ⟨k, v⟩ := m
    by_cases hk : k = key
    · simp [replace, get?, hk]
    · have : has key ms = true := by simpa [has, get?, hk] using h
      simp [replace, get?, hk, ih this]

theorem get?_insert (key : String) (value : α) {ms : Members α} (h : has key ms = false) :
    get? key (insert key value ms) = some value := by
  induction ms with
  | nil => simp [insert, get?]
  | cons m ms ih =>
    obtain ⟨k, v⟩ := m
    have hk : k ≠ key := by
      intro hk
      simp [has, get?, hk] at h
    have : has key ms = false := by simpa [has, get?, hk] using h
    simp only [insert]
    split
    · simp [get?]
    · simp [get?, hk, ih this]

theorem get?_set (key : String) (value : α) (ms : Members α) :
    get? key (set key value ms) = some value := by
  unfold set
  split
  · rename_i h
    exact get?_replace key value h
  · rename_i h
    exact get?_insert key value (by simpa using h)

theorem get?_replace_ne {key other : String} (h : other ≠ key) (value : α) (ms : Members α) :
    get? other (replace key value ms) = get? other ms := by
  induction ms with
  | nil => rfl
  | cons m ms ih =>
    obtain ⟨k, v⟩ := m
    by_cases hk : k = key
    · subst hk
      simp [replace, get?, Ne.symm h]
    · simp [replace, get?, hk, ih]

theorem get?_insert_ne {key other : String} (h : other ≠ key) (value : α) (ms : Members α) :
    get? other (insert key value ms) = get? other ms := by
  induction ms with
  | nil => simp [insert, get?, Ne.symm h]
  | cons m ms ih =>
    obtain ⟨k, v⟩ := m
    simp only [insert]
    split
    · simp [get?, Ne.symm h]
    · simp [get?, ih]

theorem get?_set_ne {key other : String} (h : other ≠ key) (value : α) (ms : Members α) :
    get? other (set key value ms) = get? other ms := by
  unfold set
  split
  · exact get?_replace_ne h value ms
  · exact get?_insert_ne h value ms

theorem mem_of_mem_replace {key : String} {value : α} {m : String × α} {ms : Members α}
    (h : m ∈ replace key value ms) : m = (key, value) ∨ m ∈ ms := by
  induction ms with
  | nil => cases h
  | cons n ms ih =>
    obtain ⟨k, v⟩ := n
    by_cases hk : k = key
    · simp only [replace, hk, if_true, List.mem_cons] at h ⊢
      rcases h with h | h
      · exact Or.inl h
      · exact Or.inr (Or.inr h)
    · simp only [replace, hk, if_false, List.mem_cons] at h ⊢
      rcases h with h | h
      · exact Or.inr (Or.inl h)
      · exact (ih h).imp id Or.inr

theorem mem_of_mem_insert {key : String} {value : α} {m : String × α} {ms : Members α}
    (h : m ∈ insert key value ms) : m = (key, value) ∨ m ∈ ms := by
  induction ms with
  | nil => exact Or.inl (List.mem_singleton.1 h)
  | cons n ms ih =>
    obtain ⟨k, v⟩ := n
    simp only [insert] at h
    split at h
    · exact List.mem_cons.1 h
    · rcases List.mem_cons.1 h with h | h
      · exact Or.inr (List.mem_cons.2 (Or.inl h))
      · exact (ih h).imp id (List.mem_cons_of_mem _)

theorem mem_of_mem_set {key : String} {value : α} {m : String × α} {ms : Members α}
    (h : m ∈ set key value ms) : m = (key, value) ∨ m ∈ ms := by
  unfold set at h
  split at h
  · exact mem_of_mem_replace h
  · exact mem_of_mem_insert h

theorem mem_of_get? {key : String} {value : α} {ms : Members α} (h : get? key ms = some value) :
    (key, value) ∈ ms := by
  induction ms with
  | nil => cases h
  | cons n ms ih =>
    obtain ⟨k, v⟩ := n
    by_cases hk : k = key
    · simp only [get?, hk, if_true, Option.some.injEq] at h
      simp [hk, h]
    · simp only [get?, hk, if_false] at h
      exact List.mem_cons_of_mem _ (ih h)

theorem replace_of_get? {key : String} {value : α} {ms : Members α}
    (h : get? key ms = some value) : replace key value ms = ms := by
  induction ms with
  | nil => rfl
  | cons m ms ih =>
    obtain ⟨k, v⟩ := m
    by_cases hk : k = key
    · have hv : v = value := by simpa [get?, hk] using h
      simp [replace, hk, hv]
    · have hrest : get? key ms = some value := by simpa [get?, hk] using h
      simp [replace, hk, ih hrest]

theorem has_of_get? {key : String} {value : α} {ms : Members α} (h : get? key ms = some value) :
    has key ms = true := by
  rw [has, h]
  rfl

/-- Setting what is already stored changes nothing. -/
theorem set_of_get? {key : String} {value : α} {ms : Members α} (h : get? key ms = some value) :
    set key value ms = ms := by
  rw [set, if_pos (has_of_get? h), replace_of_get? h]

theorem replace_replace (key : String) (a b : α) (ms : Members α) :
    replace key b (replace key a ms) = replace key b ms := by
  induction ms with
  | nil => rfl
  | cons m ms ih =>
    obtain ⟨k, v⟩ := m
    by_cases hk : k = key
    · simp [replace, hk]
    · simp [replace, hk, ih]

theorem replace_insert (key : String) (a b : α) {ms : Members α} (h : has key ms = false) :
    replace key b (insert key a ms) = insert key b ms := by
  induction ms with
  | nil => simp [insert, replace]
  | cons m ms ih =>
    obtain ⟨k, v⟩ := m
    have hk : k ≠ key := by
      rintro rfl
      simp [has, get?] at h
    have hrest : has key ms = false := by simpa [has, get?, hk] using h
    simp only [insert]
    split
    · simp [replace]
    · simp [replace, hk, ih hrest]

/-- Of two values set under one name the later counts. -/
theorem set_set (key : String) (a b : α) (ms : Members α) :
    set key b (set key a ms) = set key b ms := by
  have hset : has key (set key a ms) = true := has_of_get? (get?_set key a ms)
  rw [set, if_pos hset]
  unfold set
  by_cases h : has key ms = true
  · rw [if_pos h, if_pos h, replace_replace]
  · rw [if_neg h, if_neg h, replace_insert key a b (by simpa using h)]

/-! ## Order of changes -/

theorem has_replace (key other : String) (value : α) (ms : Members α) :
    has other (replace key value ms) = has other ms := by
  induction ms with
  | nil => rfl
  | cons m ms ih =>
    obtain ⟨k, v⟩ := m
    by_cases hk : k = key
    · subst hk
      by_cases ho : k = other <;> simp [replace, has, get?, ho]
    · simp only [replace, hk, if_false]
      by_cases ho : k = other
      · simp [has, get?, ho]
      · simpa [has, get?, ho] using ih

theorem has_insert_ne {key other : String} (h : other ≠ key) (value : α) (ms : Members α) :
    has other (insert key value ms) = has other ms := by
  rw [has, get?_insert_ne h, has]

theorem replace_replace_comm {a b : String} (h : a ≠ b) (x y : α) (ms : Members α) :
    replace b y (replace a x ms) = replace a x (replace b y ms) := by
  induction ms with
  | nil => rfl
  | cons m ms ih =>
    obtain ⟨k, v⟩ := m
    by_cases ha : k = a
    · simp [replace, ha, h]
    · by_cases hb : k = b
      · simp [replace, hb, Ne.symm h]
      · simp [replace, ha, hb, ih]

theorem replace_insert_comm {a b : String} (h : a ≠ b) (x y : α) (ms : Members α) :
    replace a x (insert b y ms) = insert b y (replace a x ms) := by
  induction ms with
  | nil => simp [insert, replace, Ne.symm h]
  | cons m ms ih =>
    obtain ⟨k, v⟩ := m
    by_cases hb : b < k
    · by_cases ha : k = a
      · subst ha
        simp [insert, replace, hb, Ne.symm h]
      · simp [insert, replace, hb, ha, Ne.symm h]
    · by_cases ha : k = a
      · subst ha
        simp [insert, replace, hb]
      · simp [insert, replace, hb, ha, ih]

theorem insert_insert_comm {a b : String} (h : a ≠ b) (x y : α) (ms : Members α) :
    insert b y (insert a x ms) = insert a x (insert b y ms) := by
  have hlt : b < a ↔ ¬ a < b := by
    constructor
    · exact fun hba hab => String.lt_irrefl a (String.lt_trans hab hba)
    · intro hab
      refine Classical.byContradiction fun hba => h ?_
      exact String.le_antisymm (String.not_lt.1 hba) (String.not_lt.1 hab)
  induction ms with
  | nil => by_cases hab : a < b <;> simp [insert, hlt, hab]
  | cons m ms ih =>
    obtain ⟨k, v⟩ := m
    by_cases ha : a < k
    · by_cases hb : b < k
      · by_cases hab : a < b <;> simp [insert, ha, hb, hlt, hab]
      · have hab : ¬ b < a := fun hba => hb (String.lt_trans hba ha)
        simp [insert, ha, hb, hab]
    · by_cases hb : b < k
      · have hba : ¬ a < b := fun hab => ha (String.lt_trans hab hb)
        simp [insert, ha, hb, hba]
      · simp [insert, ha, hb, ih]

/-- Members with different names may be set in either order. -/
theorem set_set_comm {a b : String} (h : a ≠ b) (x y : α) (ms : Members α) :
    set b y (set a x ms) = set a x (set b y ms) := by
  unfold set
  by_cases ha : has a ms = true
  · by_cases hb : has b ms = true
    · simp [ha, hb, has_replace, replace_replace_comm h]
    · simp [ha, hb, has_replace, has_insert_ne h, replace_insert_comm h]
  · by_cases hb : has b ms = true
    · simp [ha, hb, has_replace, has_insert_ne (Ne.symm h), replace_insert_comm (Ne.symm h)]
    · simp [ha, hb, has_insert_ne h, has_insert_ne (Ne.symm h), insert_insert_comm h]

end Members

end WidgetSchema
