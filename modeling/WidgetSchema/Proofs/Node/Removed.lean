-- Deletion at a place. It walks to the container as a write does, but only where the place holds a
-- value, and on the way to a value the walk of a write makes nothing. So one child goes out of one
-- container, and what a write has added there is taken away again.
import WidgetSchema.Proofs.Node.Ascending
import WidgetSchema.Proofs.Node.Padding
import WidgetSchema.Proofs.Node.Reached
namespace WidgetSchema

namespace Members

variable {α : Type} {key : String}

/-- The member that is read is the one that goes. -/
theorem split_of_get? {value : α} {ms : Members α} (h : get? key ms = some value) :
    ∃ before after, ms = before ++ (key, value) :: after ∧ key ∉ names before ∧
      erase key ms = before ++ after := by
  induction ms with
  | nil => cases h
  | cons m ms ih =>
    obtain ⟨k, v⟩ := m
    by_cases hk : k = key
    · have hv : v = value := by simpa [get?, hk] using h
      subst hk hv
      exact ⟨[], ms, rfl, List.not_mem_nil, by simp [erase]⟩
    · have hrest : get? key ms = some value := by simpa [get?, hk] using h
      obtain ⟨before, after, hms, hnew, herase⟩ := ih hrest
      refine ⟨(k, v) :: before, after, by rw [hms, List.cons_append], ?_, ?_⟩
      · intro hmem
        rcases List.mem_cons.1 hmem with heq | hmem
        · exact hk heq.symm
        · exact hnew hmem
      · rw [erase, if_neg hk, herase, List.cons_append]

theorem get?_erase_self {ms : Members α} (h : (names ms).Nodup) :
    get? key (erase key ms) = none := by
  apply get?_eq_none_of_notMem
  induction ms with
  | nil => exact List.not_mem_nil
  | cons m ms ih =>
    obtain ⟨k, v⟩ := m
    obtain ⟨hk, hms⟩ := List.nodup_cons.1 h
    by_cases heq : k = key
    · rw [erase, if_pos heq]
      exact heq ▸ hk
    · rw [erase, if_neg heq]
      intro hmem
      rcases List.mem_cons.1 hmem with hmem | hmem
      · exact heq hmem.symm
      · exact ih hms hmem

end Members

namespace Node

open WidgetSchema.Path (index?)

variable {t x parent : Node} {s : String} {way : Path}

/-! ## The walk of a write -/

/-- The tree with a change made in the slot at a place. Every slot on the way that is not there is
created, as a write creates it. -/
def changeAt : Node → Path → (Node → Node) → Node
  | t, [], f => f t
  | t, s :: p, f => t.setAt [s] (changeAt ((t.child? s).getD null) p f)

theorem setAt_slot (t : Node) (s : String) (p : Path) (v : Node) :
    t.setAt (s :: p) v = t.setAt [s] (((t.child? s).getD null).setAt p v) := by
  cases t with
  | array items =>
    rcases hi : index? s with _ | i
    · simp [setAt_array_cons, hi, setAt_nil, child?]
    · simp [setAt_array_cons, hi, setAt_nil, child?]
  | object members => simp [setAt_object_cons, setAt_nil, child?]
  | _ =>
    rw [setAt_leaf_cons rfl rfl, setAt_leaf_cons rfl rfl, setAt_nil]
    rfl

/-- A write is the walk to a slot, where the value takes the place of what it finds. -/
theorem setAt_eq_changeAt (t : Node) (p : Path) (v : Node) :
    t.setAt p v = t.changeAt p fun _ => v := by
  induction p generalizing t with
  | nil => rw [setAt_nil, changeAt]
  | cons s p ih => rw [setAt_slot, changeAt, ih]

/-- On the way to a value the walk finds every slot, so it changes what is there and nothing
else. -/
theorem changeAt_of_getAt (h : t.getAt way = some x) (f : Node → Node) :
    t.changeAt way f = t.setAt way (f x) := by
  induction way generalizing t with
  | nil =>
    have htx : t = x := Option.some.inj h
    rw [changeAt, setAt_nil, htx]
  | cons s way ih =>
    obtain ⟨c, hc, hx⟩ := Option.bind_eq_some_iff.1 h
    rw [changeAt, setAt_slot t s way, hc, Option.getD_some, ih hx]

/-! ## Taking a child out -/

/-- The container without the child that a segment leads to. -/
def dropChild (s : String) : Node → Node
  | array items =>
    match index? s with
    | some i => array (items.eraseIdx i)
    | none => array items
  | object members => object (Members.erase s members)
  | t => t

theorem dropChild_of_child? (h : t.child? s = none) : t.dropChild s = t := by
  cases t with
  | array items =>
    rw [dropChild]
    split
    · rename_i i hi
      have hnone : items[i]? = none := by simpa [child?, hi] using h
      rw [List.eraseIdx_of_length_le (List.getElem?_eq_none_iff.1 hnone)]
    · rfl
  | object members =>
    have hhas : Members.has s members = false := by
      rw [Members.has, show Members.get? s members = none from h]
      rfl
    rw [dropChild, Members.erase_of_has hhas]
  | _ => rfl

theorem deleteAt_singleton (t : Node) (s : String) : t.deleteAt [s] = t.dropChild s := by
  cases t <;> rfl

/-- A deletion goes on below the child that its first segment leads to. -/
theorem deleteAt_cons_cons (t : Node) (s r : String) (p : Path) :
    t.deleteAt (s :: r :: p) =
      (t.child? s).elim t fun c => t.setAt [s] (c.deleteAt (r :: p)) := by
  cases t with
  | array items =>
    rw [deleteAt, child?]
    · rcases hi : index? s with _ | i
      · rfl
      · rcases hx : items[i]? with _ | c
        · simp [hx]
        · simp [hx, setAt_array hi hx, setAt_nil]
    · simp
  | object members =>
    rw [deleteAt, child?]
    · rcases hx : Members.get? s members with _ | c
      · rfl
      · simp [setAt_object hx, setAt_nil]
    · simp
  | _ => rfl

/-- A deletion is the walk of a write to the container, where the child is taken out, if the place
holds a value. -/
theorem deleteAt_eq_changeAt (t : Node) (way : Path) (s : String) :
    t.deleteAt (way ++ [s]) =
      if (t.getAt (way ++ [s])).isSome then t.changeAt way (dropChild s) else t := by
  induction way generalizing t with
  | nil =>
    rw [List.nil_append, deleteAt_singleton, getAt_cons, changeAt]
    rcases hc : t.child? s with _ | c
    · exact dropChild_of_child? hc
    · rfl
  | cons r way ih =>
    obtain ⟨a, p, hp⟩ : ∃ a p, way ++ [s] = a :: p :=
      List.exists_cons_of_ne_nil (by simp)
    rw [List.cons_append, hp, deleteAt_cons_cons, ← hp, getAt_cons, changeAt]
    rcases hc : t.child? r with _ | c
    · rfl
    · rw [Option.elim_some, Option.bind_some, Option.getD_some, ih]
      split
      · rfl
      · exact setAt_of_getAt (by rw [getAt_cons, hc]; rfl)

/-! ## What a deletion leaves -/

/-- A child was taken out of a container. Its neighbours close up. -/
inductive TakenOut (s : String) (x : Node) : (before after : Node) → Prop
  | item {front back : List Node} (hs : index? s = some front.length) :
    TakenOut s x (array (front ++ x :: back)) (array (front ++ back))
  | member {front back : Members Node} (hs : s ∉ Members.names front) :
    TakenOut s x (object (front ++ (s, x) :: back)) (object (front ++ back))

theorem takenOut_dropChild (h : parent.child? s = some x) :
    TakenOut s x parent (parent.dropChild s) := by
  cases parent with
  | array items =>
    obtain ⟨i, hi, hx⟩ := getElem?_of_child? h
    obtain ⟨hlt, rfl⟩ := List.getElem?_eq_some_iff.1 hx
    have hlength : (items.take i).length = i := List.length_take_of_le (Nat.le_of_lt hlt)
    have hsplit : items.take i ++ items[i] :: items.drop (i + 1) = items := by
      rw [← List.drop_eq_getElem_cons hlt, List.take_append_drop]
    have hdrop : dropChild s (array items) = array (items.take i ++ items.drop (i + 1)) := by
      rw [dropChild, hi, ← List.eraseIdx_eq_take_drop_succ]
    have hout : TakenOut s items[i] (array (items.take i ++ items[i] :: items.drop (i + 1)))
        (array (items.take i ++ items.drop (i + 1))) :=
      .item (hi.trans (congrArg some hlength.symm))
    rw [hsplit] at hout
    rw [hdrop]
    exact hout
  | object members =>
    obtain ⟨front, back, hsplit, hs, herase⟩ := Members.split_of_get? h
    rw [dropChild, herase, hsplit]
    exact .member hs
  | _ => cases h

/-- The container has an open slot for a child: the position right behind its items, or a name
that none of its members has. -/
inductive HasRoom (s : String) : Node → Prop
  | behind {items : List Node} (hs : index? s = some items.length) : HasRoom s (array items)
  | unnamed {members : Members Node} (hs : Members.get? s members = none) :
    HasRoom s (object members)

/-- A new child goes into the open slot, and out of it again. -/
theorem dropChild_setAt (h : HasRoom s parent) (v : Node) :
    (parent.setAt [s] v).dropChild s = parent := by
  cases h with
  | behind hs =>
    rw [setAt_array_cons, hs, Option.elim_some, setAt_nil, padTo_set_of_le (Nat.le_refl _),
      Nat.sub_self, List.replicate_zero, List.nil_append, dropChild, hs]
    simp [List.eraseIdx_append_of_length_le]
  | unnamed hs =>
    rename_i members
    have hhas : Members.has s members = false := by
      rw [Members.has, hs]
      rfl
    rw [setAt_object_cons, setAt_nil, dropChild, Members.erase_set, Members.erase_of_has hhas]

theorem deleteAt_setAt (h : t.getAt way = some parent) (hroom : HasRoom s parent) (v : Node) :
    (t.setAt (way ++ [s]) v).deleteAt (way ++ [s]) = t := by
  have hthere : (t.setAt (way ++ [s]) v).getAt (way ++ [s]) = some v := getAt_setAt_self t _ v
  rw [deleteAt_eq_changeAt, hthere, Option.isSome_some, if_pos rfl, setAt_append h]
  rw [changeAt_of_getAt (getAt_setAt_self t way _), setAt_setAt, dropChild_setAt hroom]
  exact setAt_of_getAt h

/-- A deletion where nothing is changes nothing. Else it takes one child out of its container and
changes nothing beside the container. And where a write finds room for a new child, a deletion
brings the tree back. -/
theorem a_deletion_takes_one_child_out_and_undoes_an_addition (t : Node) (way : Path)
    (s : String) :
    (t.getAt (way ++ [s]) = none → t.deleteAt (way ++ [s]) = t) ∧
      (∀ x, t.getAt (way ++ [s]) = some x → ∃ parent rest, t.getAt way = some parent ∧
        TakenOut s x parent rest ∧ Replaced t way rest (t.deleteAt (way ++ [s])) ∧
        ∀ members, parent = object members → (Members.names members).Nodup →
          (t.deleteAt (way ++ [s])).getAt (way ++ [s]) = none) ∧
      ∀ parent, t.getAt way = some parent → HasRoom s parent →
        ∀ v, (t.setAt (way ++ [s]) v).deleteAt (way ++ [s]) = t := by
  refine ⟨fun hnone => ?_, fun x hx => ?_, fun parent hparent hroom v => ?_⟩
  · rw [deleteAt_eq_changeAt, hnone]
    rfl
  · obtain ⟨parent, hparent, hchild⟩ :=
      Option.bind_eq_some_iff.1 ((getAt_append t way [s]).symm.trans hx)
    have hc : parent.child? s = some x := by
      obtain ⟨c, hc, hcx⟩ := Option.bind_eq_some_iff.1 hchild
      have hsame : c = x := Option.some.inj hcx
      rw [hc, hsame]
    have hdelete : t.deleteAt (way ++ [s]) = t.setAt way (parent.dropChild s) := by
      rw [deleteAt_eq_changeAt, hx, Option.isSome_some, if_pos rfl, changeAt_of_getAt hparent]
    refine ⟨parent, parent.dropChild s, hparent, takenOut_dropChild hc, ?_, ?_⟩
    · rw [hdelete]
      exact replaced_setAt hparent _
    · rintro members rfl hnames
      rw [hdelete, getAt_append, getAt_setAt_self, Option.bind_some, getAt_cons, dropChild, child?,
        Members.get?_erase_self hnames, Option.bind_none]
  · exact deleteAt_setAt hparent hroom v

/-- Two questions. -/
def questionItems : List Node :=
  [object [("question", string "Why?")], object [("question", string "How?")]]

def titledQuestions : Node := object [("faqs", array questionItems), ("title", string "FAQ")]

theorem a_question_goes_out_and_a_new_one_goes_again :
    titledQuestions.deleteAt ["faqs", "7"] = titledQuestions ∧
      (∃ parent rest, titledQuestions.getAt ["faqs"] = some parent ∧
        TakenOut "0" (object [("question", string "Why?")]) parent rest ∧
        Replaced titledQuestions ["faqs"] rest (titledQuestions.deleteAt ["faqs", "0"])) ∧
      (titledQuestions.deleteAt ["title"]).getAt ["title"] = none ∧
      (titledQuestions.setAt ["faqs", "2"] null).deleteAt ["faqs", "2"] = titledQuestions := by
  have hlaw := a_deletion_takes_one_child_out_and_undoes_an_addition titledQuestions
  obtain ⟨parent, rest, hparent, hout, hreplaced, -⟩ :=
    (hlaw ["faqs"] "0").2.1 (object [("question", string "Why?")]) (by decide +kernel)
  obtain ⟨root, -, hroot, -, -, hgone⟩ :=
    (hlaw [] "title").2.1 (string "FAQ") (by decide +kernel)
  have hmissing : titledQuestions.getAt ["faqs", "7"] = none := by decide +kernel
  have hitems : titledQuestions.getAt ["faqs"] = some (array questionItems) := by decide +kernel
  refine ⟨(hlaw ["faqs"] "7").1 hmissing, ⟨parent, rest, hparent, hout, hreplaced⟩, ?_, ?_⟩
  · exact hgone _ (Option.some.inj hroot).symm (by decide +kernel)
  · exact (hlaw ["faqs"] "2").2.2 _ hitems (.behind (by decide +kernel)) null

end Node

end WidgetSchema
