-- Repairing a tree twice. After the rules for ids every item has an id of its own, and after the
-- corrections these ids are still there, or some corrections of their site have put one value in
-- the place of all of them. In the first case a second run finds the ids as it would make them;
-- in the second case it makes ids again, and the corrections take them away again.
import WidgetSchema.Proofs.Normalization.Corrections
import WidgetSchema.Proofs.Normalization.Ids
namespace WidgetSchema.Normalization

open Correction
open Node (membersAt ChangedAt)

/-! ## Ids under other changes -/

theorem exists_string_of_areOwn {key : String} {steps : List Step} {t : Node}
    (h : AreOwn (idsAt key steps t)) :
    ∀ m ∈ membersAt key steps t, ∃ text, m = some (.string text) := by
  intro m hm
  have hid : idOf m ≠ "" := fun hnil => h.solid (hnil ▸ List.mem_map_of_mem hm)
  rcases m with _ | x
  · exact absurd rfl hid
  · cases x with
    | string text => exact ⟨text, rfl⟩
    | _ => exact absurd rfl hid

theorem isScalar_of_areOwn {key : String} {steps : List Step} {t : Node}
    (h : AreOwn (idsAt key steps t)) :
    ∀ m ∈ membersAt key steps t, ∃ x : Node, m = some x ∧ x.isScalar = true := by
  intro m hm
  obtain ⟨text, rfl⟩ := exists_string_of_areOwn h m hm
  exact ⟨_, rfl, rfl⟩

/-- Ids that are their own stay so under every rule. -/
theorem AreOwn.applyIdRule {r : IdRule} (hr : r.IsSound) {t : Node} (ht : t.Addressable)
    {s : Site} (h : AreOwn (idsAt s.key s.steps t)) :
    AreOwn (idsAt s.key s.steps (applyIdRule t r)) := by
  by_cases hs : s = r.site
  · rw [hs]
    exact areOwn_applyIdRule hr ht
  · have hsublist := (changedAt_applyIdRule hr ht).membersAt_sublist (Site.key_ne_of_ne hs)
      (isScalar_of_areOwn h)
    exact h.sublist (hsublist.map idOf)

theorem addressable_applyIdRule {r : IdRule} (hr : r.IsSound) {t : Node} (ht : t.Addressable) :
    (applyIdRule t r).Addressable :=
  ht.of_changedAt (changedAt_applyIdRule hr ht)

theorem addressable_foldl_applyIdRule {rules : List IdRule} (hrules : ∀ r ∈ rules, r.IsSound)
    {t : Node} (ht : t.Addressable) : (rules.foldl applyIdRule t).Addressable :=
  List.foldlRecOn rules applyIdRule ht fun _ ht r hr => addressable_applyIdRule (hrules r hr) ht

theorem AreOwn.foldl_applyIdRule {rules : List IdRule} (hrules : ∀ r ∈ rules, r.IsSound)
    {t : Node} (ht : t.Addressable) {s : Site} (h : AreOwn (idsAt s.key s.steps t)) :
    AreOwn (idsAt s.key s.steps (rules.foldl Normalization.applyIdRule t)) := by
  have hrun := List.foldlRecOn (motive := fun t => t.Addressable ∧ AreOwn (idsAt s.key s.steps t))
    rules Normalization.applyIdRule ⟨ht, h⟩ fun t hboth r hr =>
      ⟨addressable_applyIdRule (hrules r hr) hboth.1, hboth.2.applyIdRule (hrules r hr) hboth.1⟩
  exact hrun.2

/-- After all rules the ids at the site of each of them are their own. -/
theorem areOwn_foldl_applyIdRule {rules : List IdRule} (hrules : ∀ r ∈ rules, r.IsSound)
    {t : Node} (ht : t.Addressable) {r : IdRule} (hr : r ∈ rules) :
    AreOwn (idsAt r.site.key r.site.steps (rules.foldl applyIdRule t)) := by
  induction rules generalizing t with
  | nil => exact (List.not_mem_nil hr).elim
  | cons q rules ih =>
    have hq := hrules q List.mem_cons_self
    have hrest : ∀ r ∈ rules, r.IsSound := fun r hr => hrules r (List.mem_cons_of_mem _ hr)
    rcases List.mem_cons.1 hr with rfl | hr
    · exact (areOwn_applyIdRule hq ht).foldl_applyIdRule hrest (addressable_applyIdRule hq ht)
    · exact ih hrest (addressable_applyIdRule hq ht) hr

/-! ## Ids and corrections -/

/-- A site where ids can be made without a trace: its ids are their own, or its corrections have
one answer to what it holds and to every text. -/
inductive IsReady (cs : List Correction) (s : Site) (t : Node) : Prop
  | own (ids : AreOwn (idsAt s.key s.steps t))
  | overruled (v : Node) (corrected : atSite s cs ≠ [])
      (texts : ∀ text, settled (atSite s cs) (some (.string text)) = some v)
      (members : ∀ m ∈ membersAt s.key s.steps t,
        (∃ x : Node, m = some x ∧ x.isScalar = true) ∧ settled (atSite s cs) m = some v)

theorem answer_of_settled {cs : List Correction} {m : Option Node} {v : Node}
    (h : settled cs m = some v) : answer cs m = v := by
  rw [answer, h, Option.getD_some]

theorem IsReady.applyIdRule {cs : List Correction} {s : Site} {t : Node} (h : IsReady cs s t)
    {r : IdRule} (hr : r.IsSound) (ht : t.Addressable) : IsReady cs s (applyIdRule t r) := by
  cases h with
  | own ids => exact .own (ids.applyIdRule hr ht)
  | overruled v corrected texts members =>
    by_cases hs : s = r.site
    · rw [hs]
      exact .own (areOwn_applyIdRule hr ht)
    · have hsublist := (changedAt_applyIdRule hr ht).membersAt_sublist (Site.key_ne_of_ne hs)
        fun m hm => (members m hm).1
      exact .overruled v corrected texts fun m hm => members m (hsublist.subset hm)

/-- Once a site is ready, its ids make no difference to the corrections. -/
theorem IsReady.correctAll_applyIdRule {cs : List Correction} {r : IdRule} {t : Node}
    (h : IsReady cs r.site t) (hr : r.IsSound) (ht : t.Addressable) :
    correctAll cs (Normalization.applyIdRule t r) = correctAll cs t := by
  cases h with
  | own ids => rw [applyIdRule_eq_self hr ht ids]
  | overruled v corrected texts members =>
    have hsite : ∀ c ∈ atSite r.site cs, c.site = r.site := fun c => site_of_mem_atSite
    have hnamed : ∀ m ∈ membersAt r.site.key r.site.steps (Normalization.applyIdRule t r),
        answer (atSite r.site cs) m = v := by
      intro m hm
      obtain ⟨text, rfl⟩ := exists_string_of_areOwn (areOwn_applyIdRule hr ht) m hm
      exact answer_of_settled (texts text)
    rw [correctAll_eq_elsewhere r.site, correctAll_eq_repair corrected hsite,
      correctAll_eq_elsewhere r.site cs t, correctAll_eq_repair corrected hsite]
    refine congrArg (correctAll (elsewhere r.site cs)) ?_
    exact (changedAt_applyIdRule hr ht).mapAt_setMember_eq
      (fun m hm => answer_of_settled (members m hm).2) hnamed

/-- Corrections leave each site ready where the ids were their own. -/
theorem isReady_correctAll (cs : List Correction) {s : Site} {t : Node}
    (h : AreOwn (idsAt s.key s.steps t)) : IsReady cs s (correctAll cs t) := by
  have hother : ∀ c ∈ elsewhere s cs, c.site ≠ s := fun c => site_of_mem_elsewhere
  have htexts := exists_string_of_areOwn h
  rw [correctAll_eq_elsewhere s]
  -- All ids are texts, so the corrections of the site keep all of them or none.
  rcases settled_string (atSite s cs) with hstay | ⟨hne, v, hgo⟩
  · have hself : correctAll (atSite s cs) t = t := by
      refine correctAll_atSite_eq_self fun m hm => ?_
      obtain ⟨text, rfl⟩ := htexts m hm
      exact hstay text
    rw [hself]
    have hsublist := membersAt_correctAll_sublist hother (isScalar_of_areOwn h)
    exact .own (h.sublist (hsublist.map idOf))
  · have hv : settled (atSite s cs) (some v) = some v := by
      rw [← hgo "", settled_settled]
    have hscalar : v.isScalar = true := by
      rw [← answer_of_settled (hgo "")]
      exact (settled_eq_answer hne _).2
    have hmembers : ∀ m ∈ membersAt s.key s.steps (correctAll (atSite s cs) t), m = some v := by
      intro m hm
      rw [correctAll_eq_repair hne fun c => site_of_mem_atSite, Node.repair,
        Node.membersAt_mapAt_setMember] at hm
      obtain ⟨m₀, hm₀, rfl⟩ := List.mem_map.1 hm
      obtain ⟨text, rfl⟩ := htexts m₀ hm₀
      exact congrArg some (answer_of_settled (hgo text))
    have hsublist := membersAt_correctAll_sublist hother fun m hm => ⟨v, hmembers m hm, hscalar⟩
    refine .overruled v hne hgo fun m hm => ?_
    obtain rfl := hmembers m (hsublist.subset hm)
    exact ⟨⟨v, rfl, hscalar⟩, hv⟩

theorem correctAll_foldl_applyIdRule {cs : List Correction} {rules : List IdRule}
    (hrules : ∀ r ∈ rules, r.IsSound) {t : Node} (ht : t.Addressable)
    (hready : ∀ r ∈ rules, IsReady cs r.site t) :
    correctAll cs (rules.foldl applyIdRule t) = correctAll cs t := by
  induction rules generalizing t with
  | nil => rfl
  | cons r rules ih =>
    have hr := hrules r List.mem_cons_self
    have hrest := ih (fun q hq => hrules q (List.mem_cons_of_mem _ hq))
      (addressable_applyIdRule hr ht) fun q hq =>
        (hready q (List.mem_cons_of_mem _ hq)).applyIdRule hr ht
    rw [List.foldl_cons, hrest]
    exact (hready r List.mem_cons_self).correctAll_applyIdRule hr ht

/-! ## All rules -/

theorem apply_eq_correctAll {n : Normalization} (h : n.IsSound) {t : Node} (ht : t.Addressable) :
    n.apply t = correctAll (n.coerceRules.filterMap CoerceRule.correction?)
      (n.idRules.foldl applyIdRule t) :=
  foldl_applyCoerceRule h.coerceRules (addressable_foldl_applyIdRule h.idRules ht)

theorem apply_apply {n : Normalization} (h : n.IsSound) {t : Node} (ht : t.Addressable) :
    n.apply (n.apply t) = n.apply t := by
  have hnamed := addressable_foldl_applyIdRule h.idRules ht
  have happly := apply_eq_correctAll h ht
  have hrepaired : (n.apply t).Addressable := by
    rw [happly]
    exact addressable_correctAll _ hnamed
  have hready : ∀ r ∈ n.idRules,
      IsReady (n.coerceRules.filterMap CoerceRule.correction?) r.site (n.apply t) := by
    intro r hr
    rw [happly]
    exact isReady_correctAll _ (areOwn_foldl_applyIdRule h.idRules ht hr)
  rw [apply_eq_correctAll h hrepaired, correctAll_foldl_applyIdRule h.idRules hrepaired hready,
    happly, correctAll_correctAll]

/-- Repairing a tree a second time by rules that were read changes nothing. -/
theorem a_second_repair_changes_nothing {raw : Node} {n : Option Normalization}
    (h : read raw = .ok n) {t : Node} (ht : t.Addressable) :
    applyAll n (applyAll n t) = applyAll n t := by
  cases n with
  | none => rfl
  | some n => exact apply_apply (isSound_of_read h) ht

/-- The whole number seven. -/
def seven : Node := .number (.int 7 (by decide))

/-- Rules for the ids of questions and topics, and one that puts a number in place of the ids of
questions. -/
def questionRules : Normalization where
  idRules := [{ arrayPath := "faqs", idKey := "id", seedKey := some "title" },
    { arrayPath := "topics", idKey := "id" }]
  coerceRules := [{ path := "faqs[].id", type := .number, default := some seven }]

/-- Two questions with one title, and a topic whose id is the one that the other topic gets. -/
def questions : Node :=
  .object [
    ("faqs", .array [.object [("title", .string "Why?")], .object [("title", .string "Why?")]]),
    ("topics", .array [.object [], .object [("id", .string " id-1 ")]])]

def repairedQuestions : Node :=
  .object [
    ("faqs", .array [.object [("id", seven), ("title", .string "Why?")],
      .object [("id", seven), ("title", .string "Why?")]]),
    ("topics", .array [.object [("id", .string "id-1")], .object [("id", .string "id-1-2")]])]

/-- A second run makes ids for the questions again, and takes them away again. -/
theorem the_repaired_questions_stay :
    read questionRules.toNode = .ok (some questionRules) ∧ questions.Addressable ∧
      applyAll (some questionRules) questions = repairedQuestions ∧
      applyAll (some questionRules) (applyAll (some questionRules) questions) =
        repairedQuestions := by
  have hread : read questionRules.toNode = .ok (some questionRules) := rfl
  have haddressable : questions.Addressable := by
    simp [questions, Node.Addressable, Node.AddressableItems, Node.AddressableMembers]
  have honce : applyAll (some questionRules) questions = repairedQuestions := rfl
  refine ⟨hread, haddressable, honce, ?_⟩
  rw [a_second_repair_changes_nothing hread haddressable, honce]

end WidgetSchema.Normalization
