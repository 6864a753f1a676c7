-- What a rule for types leaves behind. It makes one correction at its site. So its parent path
-- reaches the same objects before and after it, and in each of them one member is settled: it is
-- what it was, if that is of the type, and the default otherwise.
import WidgetSchema.Proofs.Node.Reached
import WidgetSchema.Proofs.Normalization.Corrections
namespace WidgetSchema

open Normalization
open Node (places setMember)

namespace CoerceRule

/-- What the path of a rule reaches before its last segment. -/
def parents (r : CoerceRule) (t : Node) : List (Path × Node) :=
  reach t (Text.split '.' r.path).dropLast

variable {r : CoerceRule} {t v : Node}

/-- The correction that a rule makes with its default. -/
def defaulting (r : CoerceRule) (v : Node) (h : r.type.accepts v = true) : Correction :=
  ⟨r.site, r.type, v, h⟩

theorem applyCoerceRule_eq_correct (h : r.IsSound) (ht : t.Addressable) (hv : r.default = some v) :
    applyCoerceRule t r = (r.defaulting v (h.default v hv)).correct t := by
  have hcorrection : r.correction? = some (r.defaulting v (h.default v hv)) := by
    simp [correction?, hv, h.default v hv, defaulting]
  rw [applyCoerceRule_eq_correctAll h ht, hcorrection]
  rfl

theorem parents_eq_places (h : r.IsSound) (t : Node) : r.parents t = places r.site.steps t :=
  reach_parents h t

/-- The parents after a rule are those before it, each with one member settled. -/
theorem parents_applyCoerceRule (h : r.IsSound) (ht : t.Addressable) (hv : r.default = some v) :
    r.parents (applyCoerceRule t r) = (r.parents t).map
      (Prod.map id (setMember r.site.key (r.defaulting v (h.default v hv)).corrected)) := by
  rw [parents_eq_places h, parents_eq_places h, applyCoerceRule_eq_correct h ht hv]
  exact Node.places_mapAt _ _ t

/-- A parent after a rule holds the settled member. -/
theorem getAt_leaf (h : r.IsSound) (ht : t.Addressable) (hv : r.default = some v) {p : Path}
    {x : Node} (hx : (p, x) ∈ r.parents t) (hobject : x.isObject = true) :
    (applyCoerceRule t r).getAt (p ++ [r.site.key]) =
      some ((r.defaulting v (h.default v hv)).corrected (t.getAt (p ++ [r.site.key]))) := by
  have hu : (applyCoerceRule t r).Addressable := by
    rw [applyCoerceRule_eq_correct h ht hv]
    exact ht.of_changedAt (Correction.changedAt_correct _ t)
  have hold : t.getAt (p ++ [r.site.key]) = x.member? r.site.key :=
    Node.getAt_member_of_mem_places ht (parents_eq_places h t ▸ hx) hobject _
  have hy := List.mem_map_of_mem
    (f := Prod.map id (setMember r.site.key (r.defaulting v (h.default v hv)).corrected)) hx
  rw [← parents_applyCoerceRule h ht hv, parents_eq_places h] at hy
  cases x with
  | object members =>
    rw [hold]
    exact (Node.getAt_member_of_mem_places hu hy rfl _).trans (Members.get?_set _ _ _)
  | _ => cases hobject

end CoerceRule

namespace Normalization

/-- After a rule with a default every object that its parent path reaches has a value of the type
under the last key: the value that was there, if it is of the type, or else the default. Nothing
else is changed, and a rule without a default changes nothing. -/
theorem a_member_is_of_the_type_or_takes_the_default {raw : Node} {n : Normalization}
    (h : read raw = .ok (some n)) {r : CoerceRule} (hr : r ∈ n.coerceRules) {t : Node}
    (ht : t.Addressable) :
    (r.default = none → applyCoerceRule t r = t) ∧
    ∀ v, r.default = some v →
      (∀ p x, (p, x) ∈ r.parents t → x.isObject = true →
        ∃ y, (applyCoerceRule t r).getAt (p ++ [r.site.key]) = some y ∧
          r.type.accepts y = true ∧
          (∀ old, t.getAt (p ++ [r.site.key]) = some old → r.type.accepts old = true → y = old) ∧
          ((∀ old, t.getAt (p ++ [r.site.key]) = some old → r.type.accepts old = false) → y = v)) ∧
      (r.parents (applyCoerceRule t r)).map (fun place => (place.1, place.2.isObject)) =
        (r.parents t).map (fun place => (place.1, place.2.isObject)) ∧
      (applyCoerceRule t r).without r.site = t.without r.site := by
  have hsound := (isSound_of_read h).coerceRules r hr
  refine ⟨fun hnone => CoerceRule.applyCoerceRule_of_default hnone t, fun v hv => ⟨?_, ?_, ?_⟩⟩
  · intro p x hx hobject
    have haccepted := (r.defaulting v (hsound.default v hv)).accepts_corrected
    refine ⟨_, CoerceRule.getAt_leaf hsound ht hv hx hobject, haccepted _,
      fun old hold haccepts => ?_, fun hother => ?_⟩
    · rw [hold]
      exact Correction.corrected_of_accepts haccepts
    · rcases hm : t.getAt (p ++ [r.site.key]) with _ | old
      · rfl
      · exact Correction.corrected_of_not_accepts (Bool.eq_false_iff.1 (hother old hm))
  · rw [CoerceRule.parents_applyCoerceRule hsound ht hv, List.map_map]
    refine List.map_congr_left fun place _ => ?_
    obtain ⟨p, x⟩ := place
    cases x <;> rfl
  · rw [CoerceRule.applyCoerceRule_eq_correct hsound ht hv]
    exact (Correction.changedAt_correct (r.defaulting v (hsound.default v hv)) t).without_eq

/-- Rows of cards, of which one is open, one says so in a text and one says nothing. -/
def cardRows (first second third : Members Node) : Node :=
  .object [("rows", .array [
    .object [("cards", .array [.object first, .string "open", .object second])],
    .object [("cards", .array [.object third])]])]

def openRule : CoerceRule :=
  { path := "rows[].cards[].open", type := .boolean, default := some (.bool false) }

def openRules : Normalization := { idRules := [], coerceRules := [openRule] }

theorem the_cards_say_whether_they_are_open :
    let t := cardRows [("open", .bool true)] [("open", .string "yes")] [("title", .string "News")]
    read openRules.toNode = .ok (some openRules) ∧ openRule ∈ openRules.coerceRules ∧
      t.Addressable ∧ openRule.default = some (.bool false) ∧
      applyCoerceRule t openRule = cardRows [("open", .bool true)] [("open", .bool false)]
        [("open", .bool false), ("title", .string "News")] ∧
      (∃ y, (applyCoerceRule t openRule).getAt ["rows", "0", "cards", "2", "open"] = some y ∧
        openRule.type.accepts y = true) ∧
      (applyCoerceRule t openRule).without openRule.site = t.without openRule.site := by
  intro t
  have hread : read openRules.toNode = .ok (some openRules) := rfl
  have haddressable : t.Addressable := by
    simp [t, cardRows, Node.Addressable, Node.AddressableItems, Node.AddressableMembers]
  have hparent : (["rows", "0", "cards", "2"], Node.object [("open", .string "yes")]) ∈
      openRule.parents t := .tail _ (.tail _ (.head _))
  obtain ⟨hmembers, -, hrest⟩ :=
    (a_member_is_of_the_type_or_takes_the_default hread List.mem_cons_self haddressable).2 _ rfl
  obtain ⟨y, hy, haccepts, -⟩ := hmembers _ _ hparent rfl
  exact ⟨hread, List.mem_cons_self, haddressable, rfl, rfl, ⟨y, hy, haccepts⟩, hrest⟩

end Normalization

end WidgetSchema
