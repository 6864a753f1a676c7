-- Taking items out of an array, moving them and putting them in. A valid tree stays valid when
-- items go or change their order, so the check of the whole tree never refuses such an edit,
-- and each edit of the items can be taken back.
import WidgetSchema.Proofs.Control.Exchange
import WidgetSchema.Proofs.Edit.Accepted
namespace WidgetSchema.Editor

open WidgetSchema.Node (Replaced)

/-! ## Lists of items -/

/-- The item at one position, taken out and put in at another one. -/
theorem moved_eq {source target : Nat} {xs : List Node} (h : source < xs.length) :
    moved source target xs = (xs.eraseIdx source).insertIdx target xs[source] := by
  rw [moved, List.getElem?_eq_getElem h]

theorem moved_perm {source target : Nat} {xs : List Node} (hs : source < xs.length)
    (ht : target < xs.length) : (moved source target xs).Perm xs := by
  have hle : target ≤ (xs.eraseIdx source).length := by
    rw [List.length_eraseIdx_of_lt hs]
    omega
  rw [moved_eq hs]
  exact (List.perm_insertIdx _ _ hle).trans (List.getElem_cons_eraseIdx_perm hs)

/-- Moving an item back undoes the move. -/
theorem moved_moved {source target : Nat} {xs : List Node} (hs : source < xs.length)
    (ht : target < xs.length) : moved target source (moved source target xs) = xs := by
  have hlen : target < (moved source target xs).length := by
    rwa [(moved_perm hs ht).length_eq]
  have hitem : (moved source target xs)[target] = xs[source] := by
    simp only [moved_eq hs]
    exact List.getElem_insertIdx_self _
  rw [moved_eq hlen, hitem, moved_eq hs, List.eraseIdx_insertIdx_self,
    List.insertIdx_eraseIdx_getElem]

/-! ## Edits at the place of an array -/

/-- An edit that gives its kind and its place. -/
structure Names (op : Node) (kind path : String) : Prop where
  kind : op.member? "op" = some (.string kind)
  place : op.member? "path" = some (.string path)

/-- An array in a valid tree, at a place that may be written and that an array control
governs. -/
structure GovernedArray (e : Editor) (t : Node) (path : String) (xs : List Node) : Prop where
  valid : IsValid t e.controls
  solid : Text.isBlankText path = false
  clean : Path.hasProhibited (Text.split '.' path) = false
  governed : ∃ c, Control.governing? e.controls path = some c ∧ c.kind = .array
  holds : t.getAt (Path.ofText path) = some (.array xs)

theorem isObject_of_member? {t v : Node} {key : String} (h : t.member? key = some v) :
    t.isObject = true := by
  cases t with
  | object _ => rfl
  | _ => simp [Node.member?, Node.object?] at h

/-- A batch of one edit goes through when the edit does and leaves a valid tree. -/
theorem apply_singleton_eq_ok {e : Editor} {t op next : Node} (h : e.change t op = .ok next)
    (hvalid : IsValid next e.controls) : e.apply t [op] = .ok next := by
  refine apply_eq_ok_iff.2 ⟨List.cons_ne_nil _ _, ?_, fun _ => hvalid⟩
  exact run_cons_eq_ok_iff.2 ⟨next, step_eq_ok_iff.2 ⟨h, fun _ => hvalid⟩, rfl⟩

theorem change_eq_ok_of_names {e : Editor} {t op next : Node} {kind path : String} {c : Control}
    (hop : Names op kind path) (hsolid : Text.isBlankText path = false)
    (hclean : Path.hasProhibited (Text.split '.' path) = false)
    (hc : Control.governing? e.controls path = some c)
    (h : e.perform t kind path c op = .ok next) : e.change t op = .ok next := by
  have hpath : opPath? op = some path := by
    rw [opPath?, hop.place]
    simp [Node.string?, Option.filter, hsolid]
  have hkind : (op.member? "op").bind Node.string? = some kind := by
    rw [hop.kind]
    rfl
  exact change_eq_ok_iff.2
    ⟨kind, path, c, isObject_of_member? hop.kind, hkind, hpath, hclean, hc, h⟩

/-- What an accepted edit with a given kind and place did. -/
theorem perform_of_apply {e : Editor} {t op next : Node} {kind path : String}
    (hop : Names op kind path) (h : e.apply t [op] = .ok next) :
    ∃ c, Control.governing? e.controls path = some c ∧ e.perform t kind path c op = .ok next := by
  have hchange := change_of_run_singleton (run_of_apply h).1
  obtain ⟨name, place, c, _, hname, hplace, _, hc, hperform⟩ := change_eq_ok_iff.1 hchange
  rw [hop.kind] at hname
  have hkind : kind = name := Option.some.inj hname
  have hpath : path = place := by
    have hmem := (Option.filter_eq_some_iff.1 hplace).1
    rw [hop.place] at hmem
    exact Option.some.inj hmem
  subst hkind hpath
  exact ⟨c, hc, hperform⟩

namespace GovernedArray

variable {e : Editor} {t op next : Node} {path : String} {xs ys : List Node}

/-- The place goes on holding an array under the same control when an edit is accepted there. -/
theorem of_apply (h : GovernedArray e t path xs) (happly : e.apply t [op] = .ok next)
    (hnext : next = t.setAt (Path.ofText path) (.array ys)) : GovernedArray e next path ys where
  valid := (run_of_apply happly).2
  solid := h.solid
  clean := h.clean
  governed := h.governed
  holds := by rw [hnext, Node.getAt_setAt_self]

/-- Every item can be taken out. -/
theorem apply_remove (h : GovernedArray e t path xs) (hop : Names op "remove" path) {index : Nat}
    (hindex : position op "index" = .ok index) (hlt : index < xs.length) :
    e.apply t [op] = .ok (t.setAt (Path.ofText path) (.array (xs.eraseIdx index))) := by
  obtain ⟨c, hc, hkind⟩ := h.governed
  have hperform : e.perform t "remove" path c op =
      .ok (t.setAt (Path.ofText path) (.array (xs.eraseIdx index))) :=
    removeItem_eq_ok_iff.2 ⟨index, xs, hkind, hindex, h.holds, hlt, rfl⟩
  refine apply_singleton_eq_ok (change_eq_ok_of_names hop h.solid h.clean hc hperform) ?_
  exact Control.isValid_setAt_array h.valid h.holds (List.eraseIdx_sublist xs index).subperm

/-- Every item can be moved to every position. -/
theorem apply_move (h : GovernedArray e t path xs) (hop : Names op "move" path)
    {source target : Nat} (hsource : position op "from" = .ok source)
    (htarget : position op "to" = .ok target) (hs : source < xs.length)
    (ht : target < xs.length) :
    e.apply t [op] = .ok (t.setAt (Path.ofText path) (.array (moved source target xs))) := by
  obtain ⟨c, hc, hkind⟩ := h.governed
  have hperform : e.perform t "move" path c op =
      .ok (t.setAt (Path.ofText path) (.array (moved source target xs))) :=
    moveItem_eq_ok_iff.2 ⟨source, target, xs, hkind, hsource, htarget, h.holds, hs, ht, rfl⟩
  refine apply_singleton_eq_ok (change_eq_ok_of_names hop h.solid h.clean hc hperform) ?_
  exact Control.isValid_setAt_array h.valid h.holds (moved_perm hs ht).subperm

/-- An item that was put in can be taken out again, and the tree is as it was. -/
theorem apply_remove_of_insert (h : GovernedArray e t path xs) (hop : Names op "insert" path)
    {index : Nat} (hindex : position op "index" = .ok index)
    (happly : e.apply t [op] = .ok next) {back : Node} (hback : Names back "remove" path)
    (hposition : position back "index" = .ok index) : e.apply next [back] = .ok t := by
  obtain ⟨c, _, hperform⟩ := perform_of_apply hop happly
  obtain ⟨i, zs, raw, item, _, hi, hzs, hle, _, _, _, hnext⟩ := insertItem_eq_ok_iff.1 hperform
  have hindex : index = i := Except.ok.inj (hindex.symm.trans hi)
  have hitems : xs = zs := by
    rw [h.holds] at hzs
    exact Node.array.inj (Option.some.inj hzs)
  subst hindex hitems
  have hlt : index < (xs.insertIdx index item).length := by
    rw [List.length_insertIdx_of_le_length hle]
    exact Nat.lt_succ_of_le hle
  rw [(h.of_apply happly hnext).apply_remove hback hposition hlt, List.eraseIdx_insertIdx_self,
    hnext, Node.setAt_setAt, Node.setAt_of_getAt h.holds]

/-- An item that was moved can be moved back, and the tree is as it was. -/
theorem apply_move_of_move (h : GovernedArray e t path xs) (hop : Names op "move" path)
    {source target : Nat} (hsource : position op "from" = .ok source)
    (htarget : position op "to" = .ok target) (hs : source < xs.length) (ht : target < xs.length)
    {back : Node} (hback : Names back "move" path) (hfrom : position back "from" = .ok target)
    (hto : position back "to" = .ok source) :
    e.apply (t.setAt (Path.ofText path) (.array (moved source target xs))) [back] = .ok t := by
  have happly := h.apply_move hop hsource htarget hs ht
  have hlen : (moved source target xs).length = xs.length := (moved_perm hs ht).length_eq
  rw [(h.of_apply happly rfl).apply_move hback hfrom hto (by rwa [hlen]) (by rwa [hlen]),
    moved_moved hs ht, Node.setAt_setAt, Node.setAt_of_getAt h.holds]

end GovernedArray

/-! ## All edits of items -/

/-- In an array of a valid tree that an array control governs, every item can be taken out and
moved, with no effect but on that array. An accepted insertion is undone by taking the item
out again, and every move by moving the item back. -/
theorem items_go_and_move_and_come_back {e : Editor} {data : Node} {path : String}
    {xs : List Node} (h : GovernedArray e data path xs) :
    (∀ op index, Names op "remove" path → position op "index" = .ok index →
      index < xs.length → ∃ next, e.apply data [op] = .ok next ∧
        Replaced data (Path.ofText path) (.array (xs.eraseIdx index)) next) ∧
    (∀ op source target, Names op "move" path → position op "from" = .ok source →
      position op "to" = .ok target → (hs : source < xs.length) → target < xs.length →
      ∃ next, e.apply data [op] = .ok next ∧
        Replaced data (Path.ofText path)
          (.array ((xs.eraseIdx source).insertIdx target xs[source])) next ∧
        ∀ back, Names back "move" path → position back "from" = .ok target →
          position back "to" = .ok source → e.apply next [back] = .ok data) ∧
    ∀ op index next, Names op "insert" path → position op "index" = .ok index →
      e.apply data [op] = .ok next → ∀ back, Names back "remove" path →
      position back "index" = .ok index → e.apply next [back] = .ok data := by
  refine ⟨?_, ?_, ?_⟩
  · intro op index hop hindex hlt
    exact ⟨_, h.apply_remove hop hindex hlt, Node.replaced_setAt h.holds _⟩
  · intro op source target hop hsource htarget hs ht
    refine ⟨_, h.apply_move hop hsource htarget hs ht, ?_, ?_⟩
    · rw [moved_eq hs]
      exact Node.replaced_setAt h.holds _
    · intro back hback hfrom hto
      exact h.apply_move_of_move hop hsource htarget hs ht hback hfrom hto
  · intro op index next hop hindex happly back hback hposition
    exact h.apply_remove_of_insert hop hindex happly hback hposition

/-- The items of an answered tree. -/
def answerItems (second : String) : List Node := [
  .object [("answer", .object [("text", .string "Yes")]), ("id", .string "a")],
  .object [("answer", .object [("text", .string second)]), ("id", .string "b")]]

/-- An edit of the questions, with the further members that its kind asks for. -/
def faqsOp (kind : String) (more : List (String × Node)) : Node :=
  .object (("op", .string kind) :: ("path", .string "faqs") :: more)

def newAnswer : Node :=
  .object [("answer", .object [("text", .string "Perhaps")]), ("id", .string "c")]

/-- The answers go, move and come back. -/
theorem the_answers_go_and_move_and_come_back :
    GovernedArray answers (answered "No") "faqs" (answerItems "No") ∧
      (∃ next, answers.apply (answered "No") [faqsOp "remove" [("index", .ofNat 0)]] = .ok next ∧
        Replaced (answered "No") ["faqs"] (.array (answerItems "No").tail) next) ∧
      (∃ next, answers.apply (answered "No")
          [faqsOp "move" [("from", .ofNat 0), ("to", .ofNat 1)]] = .ok next ∧
        Replaced (answered "No") ["faqs"] (.array (answerItems "No").reverse) next ∧
        answers.apply next [faqsOp "move" [("from", .ofNat 1), ("to", .ofNat 0)]] =
          .ok (answered "No")) ∧
      ∃ next, answers.apply (answered "No")
          [faqsOp "insert" [("index", .ofNat 1), ("value", newAnswer)]] = .ok next ∧
        answers.apply next [faqsOp "remove" [("index", .ofNat 1)]] = .ok (answered "No") := by
  have h : GovernedArray answers (answered "No") "faqs" (answerItems "No") :=
    ⟨rfl, by decide, by decide, ⟨_, rfl, rfl⟩, rfl⟩
  obtain ⟨hremove, hmove, hinsert⟩ := items_go_and_move_and_come_back h
  refine ⟨h, ?_, ?_, ?_⟩
  · exact hremove (faqsOp "remove" [("index", .ofNat 0)]) 0 ⟨rfl, rfl⟩ rfl (by decide)
  · obtain ⟨next, hnext, hreplaced, hback⟩ :=
      hmove (faqsOp "move" [("from", .ofNat 0), ("to", .ofNat 1)]) 0 1 ⟨rfl, rfl⟩ rfl rfl
        (by decide) (by decide)
    exact ⟨next, hnext, hreplaced, hback _ ⟨rfl, rfl⟩ rfl rfl⟩
  · have hnext : answers.apply (answered "No")
        [faqsOp "insert" [("index", .ofNat 1), ("value", newAnswer)]] =
          .ok ((answered "No").setAt ["faqs"] (.array ((answerItems "No").insertIdx 1 newAnswer))) :=
      rfl
    exact ⟨_, hnext, hinsert _ 1 _ ⟨rfl, rfl⟩ rfl hnext _ ⟨rfl, rfl⟩ rfl⟩

end WidgetSchema.Editor
